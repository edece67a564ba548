import VibePoker.Game.Heard
import VibePoker.Game.Ledger
import VibePoker.Game.ReseatTree

/-!
# A hand at other seats

The setup of a hand deals in the order of the seat numbers, so the same cards come in
another order when the seats are renumbered. When each seat gets the same cards, and the
board comes from the same cards, the rest of the hand is the same at the other seats.

## Main definitions

* `holeCardsInOrder` — the cards that the order of a deck holds for a seat
* `openedState` — the state in which the preflop betting starts, in closed form
* `Reseating.Deal` — the inputs of a hand and those of the hand at the other seats

## Main results

* `setupHand_eq_some` — what the setup of a hand leaves
* `new_eq` — the first tree of the other hand
* `runHand_eq` — the prompts, the reported actions and the outcome of the other hand
-/

namespace VibePoker.Game

open VibePoker.Core VibePoker.Math

variable {n m : ℕ} {e : Engine}

/-! ## Hole cards by seat -/

/-- Two neighbouring cards of a deck. -/
def pairAt (cards : Fin 52 → Card) (k : ℕ) : Option (Card × Card) :=
  if h : k + 1 < 52 then some (cards ⟨k, Nat.lt_of_succ_lt h⟩, cards ⟨k + 1, h⟩) else none

/-- The cards that the order of a deck holds for a seat: the seats with chips get two cards
each, in the order of their numbers. -/
def holeCardsInOrder (order : Fin 52 → Card) (startingStacks : List ℕ) (seat : ℕ) :
    Option (Card × Card) :=
  pairAt order (2 * fundedSeats (startingStacks.take seat))

theorem pairAt_of_deal {deck deck₁ deck₂ : Deck} {first second : Card}
    (hfirst : deck.deal = some (first, deck₁)) (hsecond : deck₁.deal = some (second, deck₂)) :
    pairAt deck.cards deck.cursor = some (first, second) ∧
      deck₂ = { deck with cursor := deck.cursor + 2 } := by
  obtain ⟨-, rfl, rfl⟩ := Deck.deal_eq_some_iff.mp hfirst
  obtain ⟨hlt, rfl, rfl⟩ := Deck.deal_eq_some_iff.mp hsecond
  exact ⟨dif_pos hlt, rfl⟩

/-- Dealing gives a seat that is in the next two cards after those of the seats before it,
and leaves the others as they are. -/
theorem dealHoleCards_holeCards {seats : List (Fin n)} (hnodup : seats.Nodup)
    {s s' : GameState n} {deck deck' : Deck} {events : List EngineEvent}
    (h : Engine.dealHoleCards seats s deck = some (s', deck', events)) :
    deck'.cards = deck.cards ∧
      (∀ i, i ∉ seats ∨ ¬ (s.players i).stillIn → s'.players i = s.players i) ∧
      ∀ before i after, seats = before ++ i :: after → (s.players i).stillIn →
        (s'.players i).holeCards = pairAt deck.cards (deck.cursor + cardsDealt before s) := by
  induction seats generalizing s deck events with
  | nil =>
    obtain ⟨rfl, rfl, -⟩ : s = s' ∧ deck = deck' ∧ [] = events := by
      simpa [Engine.dealHoleCards] using h
    exact ⟨rfl, fun _ _ => rfl, fun before i after hsplit => by simp at hsplit⟩
  | cons first seats ih =>
    obtain ⟨hfirst, hnodup⟩ := List.nodup_cons.mp hnodup
    rcases dealHoleCards_cons h with
      ⟨one, deck₁, two, deck₂, later, hin, hone, htwo, hrest, -⟩ | ⟨hout, hrest⟩
    · obtain ⟨hpair, rfl⟩ := pairAt_of_deal hone htwo
      set s₁ := s.setPlayer first { s.players first with holeCards := some (one, two) } with hs₁
      have hstill : ∀ i, (s₁.players i).stillIn = (s.players i).stillIn :=
        setPlayer_holeCards_stillIn s first _
      have hother : ∀ i, i ≠ first → s₁.players i = s.players i := fun i hi => by
        rw [hs₁, setPlayer_players, if_neg hi]
      obtain ⟨hcards, hkept, hgiven⟩ := ih hnodup hrest
      refine ⟨hcards, fun i hi => ?_, fun before i after hsplit hini => ?_⟩
      · have hne : i ≠ first := by
          rintro rfl
          exact hi.elim (fun hmem => hmem List.mem_cons_self) fun hout => hout hin
        rw [hkept i (hi.imp (mt (List.mem_cons_of_mem _)) (by rw [hstill]; exact id)), hother i hne]
      · -- the cards of a seat lie behind those of the seats that were dealt before it
        cases before with
        | nil =>
          obtain ⟨rfl, rfl⟩ := List.cons.inj hsplit
          rw [hkept _ (Or.inl hfirst), hs₁, setPlayer_players, if_pos rfl]
          exact hpair.symm
        | cons seat before =>
          obtain ⟨rfl, rfl⟩ := List.cons.inj hsplit
          rw [hgiven before i after rfl (by rwa [hstill]), cardsDealt_cons_of_stillIn hin,
            cardsDealt_congr hstill]
          exact congrArg (pairAt deck.cards) (by dsimp only; omega)
    · obtain ⟨hcards, hkept, hgiven⟩ := ih hnodup hrest
      refine ⟨hcards, fun i hi => ?_, fun before i after hsplit hini => ?_⟩
      · exact hkept i (hi.imp_left (mt (List.mem_cons_of_mem _)))
      · cases before with
        | nil =>
          obtain ⟨rfl, rfl⟩ := List.cons.inj hsplit
          exact absurd hini hout
        | cons seat before =>
          obtain ⟨rfl, rfl⟩ := List.cons.inj hsplit
          rw [hgiven before i after rfl hini, cardsDealt_cons_of_out hout]

/-! ## The setup in closed form -/

section Setup

variable {handId : ℕ} {order : Fin 52 → Card} {startingStacks : List ℕ} {dealer : ℕ}
  {seatKinds : Option (List SeatKind)}

/-- The state in which the preflop betting of a hand starts. -/
def openedState (e : Engine) (handId : ℕ) (order : Fin 52 → Card) (startingStacks : List ℕ)
    (dealer : ℕ) (seatKinds : Option (List SeatKind)) : GameState startingStacks.length :=
  { e.initState handId startingStacks dealer with
    players := fun i =>
      { forcedPlayer e startingStacks dealer i with
        holeCards := if 0 < startingStacks.get i then holeCardsInOrder order startingStacks i else none
        status := statusAfterFold (deadHand seatKinds i)
          (forcedPlayer e startingStacks dealer i).status }
    currentBet := e.rules.bigBlind
    satOut := fun i =>
      deadHand seatKinds i && (forcedPlayer e startingStacks dealer i).status ≠ .out }

theorem foldDeadHands_satOut {s s' : GameState n}
    (h : Engine.foldDeadHands seatKinds s = some s') (i : Fin n) :
    s'.satOut i = (deadHand seatKinds i && (s.players i).status ≠ .out || s.satOut i) := by
  cases seatKinds with
  | none =>
    obtain rfl := Option.some.inj h
    rfl
  | some kinds =>
    simp only [Engine.foldDeadHands] at h
    split at h
    · cases h
    · obtain rfl := Option.some.inj h
      rfl

theorem cardsDealt_before {before after : List (Fin startingStacks.length)}
    {i : Fin startingStacks.length} (hfunded : 0 < fundedSeats startingStacks)
    {s : GameState startingStacks.length} (hs : s.players = forcedPlayer e startingStacks dealer)
    (hsplit : List.finRange startingStacks.length = before ++ i :: after) :
    cardsDealt before s = 2 * fundedSeats (startingStacks.take i) := by
  have hlength : before.length = i := by
    have hget : (List.finRange startingStacks.length)[before.length]? = some i := by
      rw [hsplit]
      simp
    obtain ⟨hlt, hget⟩ := List.getElem?_eq_some_iff.mp hget
    rw [← hget, List.getElem_finRange]
    rfl
  have hbefore : before = (List.finRange startingStacks.length).take i := by
    rw [hsplit, ← hlength, List.take_left]
  have htake : startingStacks.take i = before.map startingStacks.get := by
    rw [hbefore, List.map_take, List.map_get_finRange]
  rw [cardsDealt, htake, fundedSeats, List.countP_map, List.countP_eq_length_filter]
  simp only [hs, forcedPlayer_stillIn hfunded]
  rfl

/-- What the setup of a hand leaves, at a table with chips. -/
theorem setupHand_eq_some (hfunded : 0 < fundedSeats startingStacks)
    {s : GameState startingStacks.length} {deck' : Deck} {bb : ℕ} {events : List EngineEvent}
    (h : setupHand e (.new order) (e.initState handId startingStacks dealer) seatKinds =
      some (s, deck', bb, events)) :
    s = openedState e handId order startingStacks dealer seatKinds ∧
      deck' = { cards := order, cursor := 2 * fundedSeats startingStacks } ∧
      bb = bbSeat (e.initState 0 startingStacks dealer) := by
  have hopened := opened_of_setupHand (Nat.zero_le 52) h
  have hcursor : deck'.cursor = 2 * fundedSeats startingStacks :=
    (hopened.cursor_eq hfunded).1.trans (Nat.zero_add _)
  obtain ⟨s₁, blinds, s₂, dealt, hblinds, hdeal, hfold, rfl, -⟩ := setupHand_cases h
  have hs₁ := postBlinds_forced hblinds
  have hplayers₁ : s₁.players = forcedPlayer e startingStacks dealer := by rw [hs₁]
  obtain ⟨hcards, hkept, hgiven⟩ := dealHoleCards_holeCards (List.nodup_finRange _) hdeal
  obtain ⟨htable, hplayers⟩ := foldDeadHands_eq_some hfold
  obtain ⟨-, rfl, hole, rfl, -⟩ :=
    dealHoleCards_eq_some (List.nodup_finRange _) (Nat.zero_le 52) hdeal
  -- the forced bets keep every funded seat in, so each of them is dealt two cards
  have hhole : ∀ i, hole i =
      if 0 < startingStacks.get i then holeCardsInOrder order startingStacks i else none := by
    intro i
    have hstill : (s₁.players i).stillIn = decide (0 < startingStacks.get i) := by
      rw [hplayers₁, forcedPlayer_stillIn hfunded]
    split
    case isTrue hpos =>
      obtain ⟨before, after, hsplit⟩ := List.append_of_mem (List.mem_finRange i)
      have hseat := hgiven before i after hsplit (by rw [hstill]; simpa using hpos)
      rw [cardsDealt_before hfunded hplayers₁ hsplit] at hseat
      exact hseat.trans (congrArg (pairAt order) (Nat.zero_add _))
    case isFalse hzero =>
      have hseat := congrArg PlayerState.holeCards
        (hkept i (Or.inr (by rw [hstill]; simpa using hzero)))
      refine hseat.trans ?_
      rw [hplayers₁, forcedPlayer_holeCards]
  have hseats : s.players = (openedState e handId order startingStacks dealer seatKinds).players := by
    funext i
    rw [hplayers, openedState]
    dsimp only
    rw [← hhole, ← hplayers₁]
    rfl
  have hout : s.satOut = (openedState e handId order startingStacks dealer seatKinds).satOut := by
    funext i
    rw [foldDeadHands_satOut hfold i, openedState]
    dsimp only
    rw [← hplayers₁, hs₁]
    exact Bool.or_false _
  refine ⟨?_, ?_, ?_⟩
  · rw [htable, hseats, hout, hs₁]
    rfl
  · exact congrArg (Deck.mk order) hcursor
  · refine bbSeat_congr (by rw [hs₁]; rfl) fun i => ?_
    rw [hplayers₁, forcedPlayer_stillIn hfunded, initState_players, freshPlayer_stillIn]

end Setup

/-! ## The hand at other seats -/

/-- The inputs of a hand and those of the same hand at other seats: each seat has its stack,
its designation and its hole cards, and the board comes from the same cards. -/
structure Reseating.Deal {startingStacks startingStacks' : List ℕ}
    (μ : Reseating startingStacks.length startingStacks'.length) (order : Fin 52 → Card)
    (dealer dealer' : ℕ) (seatKinds seatKinds' : Option (List SeatKind)) : Prop where
  stack_eq : ∀ i, startingStacks'.get (μ i) = startingStacks.get i
  dealer_eq : dealer' = μ.seat dealer
  kinds_eq : ∀ i, deadHand seatKinds' (μ i) = deadHand seatKinds i
  kindsFit : KindsFit seatKinds startingStacks.length → KindsFit seatKinds' startingStacks'.length
  holeCards_eq : ∀ i, 0 < startingStacks.get i →
    holeCardsInOrder μ.cards startingStacks' (μ i) = holeCardsInOrder order startingStacks i
  board_eq : ∀ k : Fin 52, 2 * fundedSeats startingStacks ≤ k →
    k < 2 * fundedSeats startingStacks + 5 → μ.cards k = order k

section Deal

variable {startingStacks startingStacks' : List ℕ}
  {μ : Reseating startingStacks.length startingStacks'.length} {order : Fin 52 → Card}
  {dealer dealer' : ℕ} {seatKinds seatKinds' : Option (List SeatKind)} {handId deckSeed : ℕ}

theorem sbSeat_reseat (μ : Reseating n m) (s : GameState n) :
    sbSeat (s.reseat μ) = μ.seat (sbSeat s) := by
  have hsearch : nextActiveAfterInList (s.reseat μ).dealer (s.reseat μ).players =
      (nextActiveAfterInList s.dealer s.players).map μ := by
    refine (μ.find?_ringAfter s.dealer _).trans ?_
    simp only [GameState.reseat_players]
    rfl
  rw [sbSeat, sbSeat, hsearch]
  cases nextActiveAfterInList s.dealer s.players with
  | none => rfl
  | some seat => exact (μ.seat_val seat).symm

theorem bbSeat_reseat (μ : Reseating n m) (s : GameState n) :
    bbSeat (s.reseat μ) = μ.seat (bbSeat s) := by
  have hsearch : nextActiveAfterInList (sbSeat (s.reseat μ)) (s.reseat μ).players =
      (nextActiveAfterInList (sbSeat s) s.players).map μ := by
    rw [sbSeat_reseat]
    refine (μ.find?_ringAfter (sbSeat s) _).trans ?_
    simp only [GameState.reseat_players]
    rfl
  rw [bbSeat, bbSeat, hsearch, sbSeat_reseat]
  cases nextActiveAfterInList (sbSeat s) s.players with
  | none => rfl
  | some seat => exact (μ.seat_val seat).symm

theorem promptsOf_reseat {μ : Reseating n m} (outputs : List (Output n)) :
    promptsOf (outputs.map (Output.reseat μ)) =
      (promptsOf outputs).map fun p => (p.1.reseat μ, p.2.reseat μ) := by
  rw [promptsOf, promptsOf, List.filterMap_map, List.map_filterMap]
  refine List.filterMap_congr fun output _ => ?_
  cases output <;> rfl

theorem reportedActions_reseat {μ : Reseating n m} (outputs : List (Output n)) :
    reportedActions (outputs.map (Output.reseat μ)) =
      (reportedActions outputs).map fun a => (μ.seat a.1, a.2) := by
  have hevents : eventsOf (outputs.map (Output.reseat μ)) =
      (eventsOf outputs).map (EngineEvent.reseat μ) := by
    rw [eventsOf, eventsOf, List.filterMap_map, List.map_filterMap]
    refine List.filterMap_congr fun output _ => ?_
    cases output <;> rfl
  rw [reportedActions, reportedActions, hevents, List.filterMap_map, List.map_filterMap]
  refine List.filterMap_congr fun event _ => ?_
  cases event <;> rfl

namespace Reseating.Deal

variable (h : μ.Deal order dealer dealer' seatKinds seatKinds')
include h

theorem fundedSeats_eq : fundedSeats startingStacks' = fundedSeats startingStacks := by
  rw [fundedSeats_eq_card, fundedSeats_eq_card, ← μ.card_filter]
  congr 1
  refine Finset.filter_congr fun j _ => ?_
  obtain ⟨i, rfl⟩ := μ.toEquiv.surjective j
  rw [h.stack_eq, Equiv.symm_apply_apply]

/-- The first state of the other hand. -/
theorem initState_eq (handId : ℕ) : e.initState μ.handId startingStacks' dealer' =
    (e.initState handId startingStacks dealer).reseat μ := by
  have hplayers : (e.initState μ.handId startingStacks' dealer').players =
      ((e.initState handId startingStacks dealer).reseat μ).players := by
    funext j
    obtain ⟨i, rfl⟩ := μ.toEquiv.surjective j
    rw [GameState.reseat_players, initState_players, initState_players, h.stack_eq]
  rw [Engine.initState] at hplayers
  dsimp only at hplayers
  rw [Engine.initState, hplayers, h.dealer_eq]
  rfl

/-- The blinds are posted by the same seats. -/
theorem blinds_eq :
    sbSeat (e.initState 0 startingStacks' dealer') =
        μ.seat (sbSeat (e.initState 0 startingStacks dealer)) ∧
      bbSeat (e.initState 0 startingStacks' dealer') =
        μ.seat (bbSeat (e.initState 0 startingStacks dealer)) := by
  have hinit := h.initState_eq (e := e) 0
  rw [← sbSeat_reseat, ← bbSeat_reseat, ← hinit]
  exact ⟨rfl, rfl⟩

theorem forcedPlayer_eq (hfunded : 0 < fundedSeats startingStacks)
    (i : Fin startingStacks.length) :
    forcedPlayer e startingStacks' dealer' (μ i) = forcedPlayer e startingStacks dealer i := by
  obtain ⟨j, hj⟩ := exists_funded hfunded
  have hin : ((e.initState 0 startingStacks dealer).players j).stillIn := by
    rw [initState_players, freshPlayer_stillIn]
    simpa using hj
  obtain ⟨sb, hsb, -⟩ := sbSeat_stillIn hin
  obtain ⟨bb, hbb, -⟩ := bbSeat_stillIn hin
  obtain ⟨hsb', hbb'⟩ := h.blinds_eq (e := e)
  have hval : ∀ k : Fin startingStacks.length, (μ i : ℕ) = μ k ↔ (i : ℕ) = k := fun k => by
    rw [Fin.val_inj, Fin.val_inj, μ.toEquiv.injective.eq_iff]
  have hpostsSb : postsSb e startingStacks' dealer' (μ i) = postsSb e startingStacks dealer i := by
    simp only [postsSb, hsb', hsb, μ.seat_val, hval]
  have hpostsBb : postsBb e startingStacks' dealer' (μ i) = postsBb e startingStacks dealer i := by
    simp only [postsBb, hbb', hbb, μ.seat_val, hval]
  rw [forcedPlayer, forcedPlayer, h.stack_eq, hpostsSb, hpostsBb]

/-- The preflop betting starts in the same state at the other seats. -/
theorem openedState_eq (handId : ℕ) (hfunded : 0 < fundedSeats startingStacks) :
    openedState e μ.handId μ.cards startingStacks' dealer' seatKinds' =
      (openedState e handId order startingStacks dealer seatKinds).reseat μ := by
  have hplayers : (openedState e μ.handId μ.cards startingStacks' dealer' seatKinds').players =
      ((openedState e handId order startingStacks dealer seatKinds).reseat μ).players := by
    funext j
    obtain ⟨i, rfl⟩ := μ.toEquiv.surjective j
    rw [GameState.reseat_players]
    simp only [openedState, h.forcedPlayer_eq hfunded, h.stack_eq, h.kinds_eq]
    split
    case isTrue hpos => rw [h.holeCards_eq i hpos]
    case isFalse => rfl
  have hout : (openedState e μ.handId μ.cards startingStacks' dealer' seatKinds').satOut =
      ((openedState e handId order startingStacks dealer seatKinds).reseat μ).satOut := by
    funext j
    obtain ⟨i, rfl⟩ := μ.toEquiv.surjective j
    simp only [openedState, GameState.reseat, h.forcedPlayer_eq hfunded, h.kinds_eq,
      Equiv.symm_apply_apply]
  rw [openedState] at hplayers hout
  rw [openedState, h.initState_eq handId]
  rw [h.initState_eq handId] at hplayers hout
  dsimp only at hplayers hout
  rw [hplayers, hout]
  rfl

/-- The other hand starts with the tree at the other seats. -/
theorem new_eq {s : GameState startingStacks.length} {deck : Deck} {canonicalBb : ℕ}
    {events : List EngineEvent} {i : Fin startingStacks.length}
    (hsetup : setupHand e (.new order) (e.initState handId startingStacks dealer) seatKinds =
      some (s, deck, canonicalBb, events)) (hactive : (s.players i).status = .active)
    (deckSeed deckSeed' : ℕ) :
    ∃ t, (GameTree.new e handId deckSeed order startingStacks dealer seatKinds).2 = some t ∧
      GameTree.DealsAt μ (2 * fundedSeats startingStacks + 5) t ∧
      (GameTree.new e μ.handId deckSeed' μ.cards startingStacks' dealer' seatKinds').2 =
        some (t.reseat μ) := by
  have hopened := opened_of_setupHand (Nat.zero_le 52) hsetup
  have hfunded := fundedSeats_pos (hopened.funded_of_active hactive)
  obtain ⟨hs, hdeck, hbb⟩ := setupHand_eq_some hfunded hsetup
  -- the other setup goes through as well
  obtain ⟨hcards, hfit⟩ := (setupHand_isSome_iff hfunded (Nat.zero_le 52)).mp (by rw [hsetup]; rfl)
  have hisSome : (setupHand e (.new μ.cards) (e.initState μ.handId startingStacks' dealer')
      seatKinds').isSome :=
    (setupHand_isSome_iff (h.fundedSeats_eq ▸ hfunded) (Nat.zero_le 52)).mpr
      ⟨h.fundedSeats_eq ▸ hcards, h.kindsFit hfit⟩
  obtain ⟨⟨s', deck', canonicalBb', events'⟩, hsetup'⟩ := Option.isSome_iff_exists.mp hisSome
  obtain ⟨hs', hdeck', hbb'⟩ := setupHand_eq_some (h.fundedSeats_eq ▸ hfunded) hsetup'
  rw [h.openedState_eq handId hfunded, ← hs] at hs'
  rw [h.fundedSeats_eq] at hdeck'
  rw [(h.blinds_eq (e := e)).2, ← hbb] at hbb'
  obtain ⟨first, hfirst, -⟩ := find?_ringAfter_isSome canonicalBb
    (p := fun i => decide ((s.players i).status = .active)) (by simpa using hactive)
  have hfirst' : nextActiveAfter canonicalBb s.players = some first := hfirst
  refine ⟨⟨s.setActionOn (some first), deck, .decision first fun _ => false⟩, ?_, ?_, ?_⟩
  · simp only [GameTree.new, hsetup, hfirst']
  · refine fun d _ => ⟨?_, ?_, ?_⟩
    · rw [BoardFits, GameState.setActionOn_board, GameState.setActionOn_street, hopened.board_eq,
        hopened.street_eq]
      rfl
    · rw [hdeck]
      exact Nat.le_add_right _ _
    · intro k hk hlt
      rw [hdeck] at hk ⊢
      exact h.board_eq k hk hlt
  · have hsearch : nextActiveAfter canonicalBb' (s.reseat μ).players = some (μ first) := by
      rw [hbb', nextActiveAfter_reseat, hfirst', Option.map_some]
    simp only [GameTree.new, hsetup', hs', hsearch, hdeck', hdeck]
    rfl

/-- The same for a hand that starts with a decision. -/
theorem new_eq_of_decision {t : GameTree startingStacks.length} {d : Decision startingStacks.length}
    (hroot : (GameTree.new e handId deckSeed order startingStacks dealer seatKinds).2 = some t)
    (hd : t.decision? = some d) (deckSeed' : ℕ) :
    GameTree.DealsAt μ (2 * fundedSeats startingStacks + 5) t ∧
      (GameTree.new e μ.handId deckSeed' μ.cards startingStacks' dealer' seatKinds').2 =
        some (t.reseat μ) := by
  obtain ⟨s, deck, canonicalBb, events, hsetup, first, hfirst⟩ :
      ∃ s deck canonicalBb events, setupHand e (.new order)
          (e.initState handId startingStacks dealer) seatKinds =
            some (s, deck, canonicalBb, events) ∧
        ∃ first, (s.players first).status = .active := by
    rw [GameTree.new] at hroot
    rcases hsetup : setupHand e (.new order) (e.initState handId startingStacks dealer)
      seatKinds with _ | ⟨s, deck, canonicalBb, events⟩
    · simp [hsetup] at hroot
    · simp only [hsetup] at hroot
      refine ⟨s, deck, canonicalBb, events, rfl, ?_⟩
      cases hfirst : nextActiveAfter canonicalBb s.players with
      | some first => exact ⟨first, nextActiveAfter_active hfirst⟩
      | none =>
        simp only [hfirst, Option.bind_eq_bind, Option.bind_eq_some_iff, Option.some.injEq] at hroot
        obtain ⟨winner, -, rfl⟩ := hroot
        cases hd
  obtain ⟨t', hnew, hdeals, hnew'⟩ := h.new_eq hsetup hfirst deckSeed deckSeed'
  obtain rfl := Option.some.inj (hnew.symm.trans hroot)
  exact ⟨hdeals, hnew'⟩

/-- The other hand asks the same seats, applies the same actions, and comes out alike. -/
theorem runHand_eq {s : GameState startingStacks.length} {deck : Deck} {canonicalBb : ℕ}
    {events : List EngineEvent} {i : Fin startingStacks.length}
    (hsetup : setupHand e (.new order) (e.initState handId startingStacks dealer) seatKinds =
      some (s, deck, canonicalBb, events)) (hactive : (s.players i).status = .active)
    (deckSeed deckSeed' : ℕ) (answers : List Action) :
    let run := runHand e handId deckSeed order startingStacks dealer seatKinds answers
    let run' := runHand e μ.handId deckSeed' μ.cards startingStacks' dealer' seatKinds' answers
    promptsOf run'.1 = (promptsOf run.1).map (fun p => (p.1.reseat μ, p.2.reseat μ)) ∧
      reportedActions run'.1 = (reportedActions run.1).map (fun a => (μ.seat a.1, a.2)) ∧
      run'.2 = run.2.reseat μ := by
  obtain ⟨t, hnew, hdeals, hnew'⟩ := h.new_eq hsetup hactive deckSeed deckSeed'
  have hplay := GameTree.play_reseat (e := e) hdeals answers
  refine ⟨?_, ?_, ?_⟩
  · rw [promptsOf_runHand, promptsOf_runHand, GameTree.playHand, GameTree.playHand,
      GameTree.playFrom, GameTree.playFrom, hnew, hnew']
    simp only [promptsOf_append, promptsOf_events, List.nil_append, hplay]
    exact promptsOf_reseat _
  · rw [reportedActions_runHand hnew, reportedActions_runHand hnew', hplay]
    exact reportedActions_reseat _
  · rw [runHand_snd, runHand_snd, GameTree.playHand, GameTree.playHand, GameTree.playFrom,
      GameTree.playFrom, hnew, hnew']
    exact congrArg Prod.snd hplay

end Reseating.Deal

end Deal

end VibePoker.Game
