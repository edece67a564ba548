import VibePoker.Client.Follow
import VibePoker.Game.Asked
import VibePoker.Game.Exactness
import VibePoker.Theorems.EventStream
import VibePoker.Theorems.Masking

/-!
# The client mirrors the engine

A client at the table of a hand has only the events that the sink lets through to its seat,
mixed with prompts, rejections, table messages, its player's own requests and replays. Whenever
the engine asks a seat, the hand that the client shows is the engine's state as far as the seat
may see it: the street, the board, its own cards, who folded and who is all-in, and, from the
first action on, the chips at stake.

## Main definitions

* `Mirrors` — the hand that a client shows is the state of the engine

## Main results

* `client_mirrors` — it is, whenever a seat is asked
-/

namespace VibePoker.Client

open VibePoker.Core VibePoker.Game VibePoker.Net VibePoker.Server

variable {n : ℕ} {e : Engine}

/-- The cards of a seat as the client shows them. -/
def shownCards (cards : Card × Card) : ℕ × ℕ := (cards.1.index, cards.2.index)

/-- The hand shows the state to the player of seat `i`, after these actions. Until the first of
them the forced bets are not shown. -/
structure Mirrors (i : Fin n) (reported : List (ℕ × Action × ℕ)) (s : GameState n)
    (hand : CurrentHand) : Prop where
  handId_eq : hand.handId = s.handId
  dealer_eq : hand.dealer = s.dealer
  street_eq : hand.street = s.street
  board_eq : hand.board = s.board.map fun card => (card.index : ℕ)
  holeCards_eq : hand.holeCards = (s.players i).holeCards.map shownCards
  folded_iff : ∀ j : Fin n, j.val ∈ hand.foldedSeats ↔ (s.players j).status = .folded
  allIn_iff : ∀ j : Fin n, j.val ∈ hand.allInSeats ↔ (s.players j).status = .allIn
  potTotal_eq : hand.potTotal = if reported = [] then 0 else s.potTotal

/-! ## What the sink lets through -/

/-- A seat follows what it is shown as it would follow everything. -/
theorem foldl_follow_delivered (i : Fin n) (sink : BroadcastSink n) (events : List EngineEvent)
    (hand : Option CurrentHand) :
    (BroadcastSink.delivered i sink events).foldl (follow i) hand =
      events.foldl (follow i) hand := by
  induction events generalizing sink hand with
  | nil => rfl
  | cons event events ih =>
    rw [BroadcastSink.delivered, List.foldl_append, ih, List.foldl_cons]
    congr 1
    cases event with
    | holeCardsDealt seat cards =>
      -- the cards of another seat are neither sent nor followed
      rw [BroadcastSink.seenBy]
      by_cases hseat : i.val = seat
      · rw [if_pos hseat]
        rfl
      · rw [if_neg hseat, follow, if_neg (Ne.symm hseat)]
        rfl
    | _ => rfl

/-! ## Operations of the engine -/

theorem actionTaken_eq (hand : CurrentHand) (seat : ℕ) (action : Action) (potTotal : ℕ) :
    ClientCore.actionTaken hand seat action potTotal =
      { hand with
        potTotal := potTotal
        foldedSeats := if action = .fold ∧ seat ∉ hand.foldedSeats then hand.foldedSeats ++ [seat]
          else hand.foldedSeats
        betThisStreet :=
          (ClientCore.actionTaken hand seat action potTotal).betThisStreet } := by
  cases action <;> rfl

/-- The hand with a seat shown all-in. -/
def allInShown (hand : CurrentHand) (seat totalCommitted : ℕ) : CurrentHand :=
  { hand with
    allInSeats := if seat ∈ hand.allInSeats then hand.allInSeats else hand.allInSeats ++ [seat]
    betThisStreet := updateBet hand.betThisStreet seat totalCommitted }

theorem mem_allInSeats_allInShown (hand : CurrentHand) (seat total j : ℕ) :
    j ∈ (allInShown hand seat total).allInSeats ↔ j ∈ hand.allInSeats ∨ j = seat := by
  simp only [allInShown]
  split
  case isTrue hmem => exact ⟨Or.inl, fun h => h.elim id fun heq => heq ▸ hmem⟩
  case isFalse => rw [List.mem_append, List.mem_singleton]

theorem mem_foldedSeats_actionTaken (hand : CurrentHand) (seat : ℕ) (action : Action)
    (potTotal j : ℕ) :
    j ∈ (ClientCore.actionTaken hand seat action potTotal).foldedSeats ↔
      j ∈ hand.foldedSeats ∨ (action = .fold ∧ j = seat) := by
  rw [actionTaken_eq]
  dsimp only
  by_cases hfold : action = .fold
  · by_cases hmem : seat ∈ hand.foldedSeats
    · simp only [hfold, hmem, not_true_eq_false, and_false, if_false, true_and]
      exact ⟨Or.inl, fun h => h.elim id fun heq => heq ▸ hmem⟩
    · simp [hfold, hmem]
  · simp [hfold]

/-- Events that report seats all-in change nothing else of the hand but the bets. -/
theorem foldl_follow_allIn (seat : ℕ) {events : List EngineEvent}
    (hevents : ∀ event ∈ events, ∃ seat total, event = .playerAllIn seat total)
    (hand : CurrentHand) :
    ∃ hand', events.foldl (follow seat) (some hand) = some hand' ∧
      hand' = { hand with
        allInSeats := hand'.allInSeats
        betThisStreet := hand'.betThisStreet } ∧
      ∀ j, j ∈ hand'.allInSeats ↔ j ∈ hand.allInSeats ∨ j ∈ allInSeats events := by
  induction events generalizing hand with
  | nil => exact ⟨hand, rfl, rfl, fun j => by simp⟩
  | cons event events ih =>
    rw [List.forall_mem_cons] at hevents
    obtain ⟨⟨actor, total, rfl⟩, hlater⟩ := hevents
    obtain ⟨hand', hfollow, hsame, hallIn⟩ := ih hlater (allInShown hand actor total)
    refine ⟨hand', hfollow, hsame, fun j => ?_⟩
    rw [hallIn, mem_allInSeats_allInShown, or_assoc]
    exact or_congr_right List.mem_cons.symm

/-- An action folds its seat, or puts it all-in and reports so, or leaves its status alone. -/
theorem performAction_told (s : GameState n) (seat : Fin n) (action : Action) :
    ((Engine.performAction s seat action).2.2 = [] ∧
        ((Engine.performAction s seat action).1.players seat).status =
          if action = .fold then .folded else (s.players seat).status) ∨
      (action ≠ .fold ∧ ∃ total,
        (Engine.performAction s seat action).2.2 = [.playerAllIn seat total] ∧
        ((Engine.performAction s seat action).1.players seat).status = .allIn) := by
  cases action with
  | fold => exact Or.inl ⟨rfl, by simp [Engine.performAction]⟩
  | check => exact Or.inl ⟨rfl, rfl⟩
  | call =>
    simp only [Engine.performAction, setPlayer_self, PlayerState.putAllIn_status,
      PlayerState.putAllIn_stack, PlayerState.put_stack, Nat.sub_eq_zero_iff_le]
    split
    · exact Or.inr ⟨by simp, _, rfl, rfl⟩
    · exact Or.inl ⟨rfl, rfl⟩
  | raise amount => exact Or.inl ⟨rfl, by simp [Engine.performAction]⟩
  | allIn =>
    refine Or.inr ⟨by simp, ?_⟩
    simp only [Engine.performAction]
    split_ifs <;> exact ⟨_, rfl, by simp⟩

theorem performAction_hand (s : GameState n) (seat : Fin n) (action : Action) :
    (Engine.performAction s seat action).1.handId = s.handId ∧
      (Engine.performAction s seat action).1.dealer = s.dealer := by
  cases action with
  | allIn =>
    simp only [Engine.performAction]
    split_ifs <;> exact ⟨rfl, rfl⟩
  | _ => exact ⟨rfl, rfl⟩

namespace Mirrors

variable {i : Fin n} {reported : List (ℕ × Action × ℕ)} {s t : GameState n} {hand : CurrentHand}

/-- A client that shows the state after these events, whatever it showed before them. -/
def After (i : Fin n) (past : List EngineEvent) (s : GameState n) : Prop :=
  ∃ hand, (∀ start, past.foldl (follow i) start = some hand) ∧
    Mirrors i (past.filterMap EngineEvent.action?) s hand

/-- Operations that change nothing that is shown. -/
theorem still (h : Mirrors i reported s hand) (hhand : t.handId = s.handId)
    (hdealer : t.dealer = s.dealer) (hstreet : t.street = s.street) (hboard : t.board = s.board)
    (hseats : ∀ j, (t.players j).status = (s.players j).status ∧
      (t.players j).holeCards = (s.players j).holeCards) (hpot : t.potTotal = s.potTotal) :
    Mirrors i reported t hand where
  handId_eq := h.handId_eq.trans hhand.symm
  dealer_eq := h.dealer_eq.trans hdealer.symm
  street_eq := h.street_eq.trans hstreet.symm
  board_eq := by rw [h.board_eq, hboard]
  holeCards_eq := by rw [h.holeCards_eq, (hseats i).2]
  folded_iff j := by rw [h.folded_iff, (hseats j).1]
  allIn_iff j := by rw [h.allIn_iff, (hseats j).1]
  potTotal_eq := by rw [h.potTotal_eq, hpot]

/-- An answer, with what it reports. -/
theorem answer {d : Decision n} (h : Mirrors i reported d.state hand)
    (hactive : (d.state.players d.seat).status = .active) (raw : Action) :
    ∃ hand', (eventsOf (d.answer raw).1).foldl (follow i) (some hand) = some hand' ∧
      Mirrors i (reported ++ (eventsOf (d.answer raw).1).filterMap EngineEvent.action?)
        (d.acted raw) hand' := by
  rw [eventsOf_answer]
  set action := Engine.normalizeAction d.state d.seat raw with haction
  set pot := (d.acted raw).potTotal with hpot
  have hothers : ∀ j, j ≠ d.seat → (d.acted raw).players j = d.state.players j :=
    fun j hj => performAction_players_of_ne hj _
  have hcards : ∀ j, ((d.acted raw).players j).holeCards = (d.state.players j).holeCards :=
    fun j => performAction_holeCards _ _ _ _
  obtain ⟨hid, hdealer⟩ := performAction_hand d.state d.seat action
  -- whatever is shown of the all-in, the action is shown on top of it
  have hshown : ∀ shown : CurrentHand, shown.handId = hand.handId → shown.dealer = hand.dealer →
      shown.street = hand.street → shown.board = hand.board →
      shown.holeCards = hand.holeCards → shown.foldedSeats = hand.foldedSeats →
      (∀ j : Fin n, j.val ∈ shown.allInSeats ↔ ((d.acted raw).players j).status = .allIn) →
      (((d.acted raw).players d.seat).status = .folded ↔ action = .fold) →
      ∀ events, Mirrors i (reported ++ (events ++
          [EngineEvent.actionTaken d.seat action pot]).filterMap EngineEvent.action?)
        (d.acted raw) (ClientCore.actionTaken shown d.seat action pot) := by
    intro shown hsid hsdealer hsstreet hsboard hscards hsfolded hsallIn hfold events
    constructor
    · rw [actionTaken_eq]
      exact hsid.trans (h.handId_eq.trans hid.symm)
    · rw [actionTaken_eq]
      exact hsdealer.trans (h.dealer_eq.trans hdealer.symm)
    · rw [actionTaken_eq]
      exact hsstreet.trans (h.street_eq.trans (performAction_street _ _ _).symm)
    · rw [actionTaken_eq]
      refine (hsboard.trans h.board_eq).trans ?_
      rw [Decision.acted, performAction_board]
    · rw [actionTaken_eq, hcards]
      exact hscards.trans h.holeCards_eq
    · intro j
      rw [mem_foldedSeats_actionTaken, hsfolded, h.folded_iff]
      by_cases hj : j = d.seat
      · subst hj
        simp [hactive, hfold]
      · rw [hothers j hj]
        simp [Fin.val_inj, hj]
    · intro j
      rw [actionTaken_eq]
      exact hsallIn j
    · rw [actionTaken_eq, List.filterMap_append]
      simp [EngineEvent.action?, hpot]
  have hallIn : ∀ j : Fin n, j ≠ d.seat →
      (j.val ∈ hand.allInSeats ↔ ((d.acted raw).players j).status = .allIn) := by
    intro j hj
    rw [h.allIn_iff, hothers j hj]
  have hnotIn : d.seat.val ∉ hand.allInSeats := by
    rw [h.allIn_iff, hactive]
    decide
  rcases performAction_told d.state d.seat action with
    ⟨hevents, hstatus⟩ | ⟨hnofold, total, hevents, hstatus⟩
  · rw [hevents]
    refine ⟨_, rfl, hshown hand rfl rfl rfl rfl rfl rfl (fun j => ?_) ?_ []⟩
    · by_cases hj : j = d.seat
      · subst hj
        refine iff_of_false hnotIn ?_
        rw [Decision.acted, ← haction, hstatus, hactive]
        split <;> decide
      · exact hallIn j hj
    · rw [Decision.acted, ← haction, hstatus, hactive]
      split
      case isTrue hfold => simp [hfold]
      case isFalse hfold => simp [hfold]
  · rw [hevents]
    refine ⟨_, rfl, hshown (allInShown hand d.seat total) rfl rfl rfl rfl rfl rfl (fun j => ?_) ?_
      [.playerAllIn d.seat total]⟩
    · rw [mem_allInSeats_allInShown]
      by_cases hj : j = d.seat
      · subst hj
        rw [Decision.acted, ← haction, hstatus]
        simp
      · rw [← hallIn j hj]
        simp [Fin.val_inj, hj]
    · rw [Decision.acted, ← haction, hstatus]
      simp [hnofold]

/-- A street is begun and its cards are dealt, once the bets are collected. -/
theorem dealt (h : Mirrors i reported (collectStreetBets s) hand) (street : Street)
    (cards : List Card) :
    ∃ hand', follow i (some hand) (.boardDealt street cards) = some hand' ∧
      Mirrors i reported ((e.beginStreet (collectStreetBets s) street).extendBoard cards)
        hand' := by
  refine ⟨_, rfl, h.handId_eq, h.dealer_eq, rfl, ?_, h.holeCards_eq, h.folded_iff, h.allIn_iff,
    h.potTotal_eq⟩
  dsimp only
  rw [h.board_eq, GameState.extendBoard_board, List.map_append]
  rfl

/-- What the engine does between two prompts. -/
theorem kept (i : Fin n) : Kept e (After i) where
  asked := by
    rintro past s seat ⟨hand, hfollow, h⟩
    exact ⟨hand, hfollow, h.still rfl rfl rfl rfl (fun _ => ⟨rfl, rfl⟩) rfl⟩
  answered := by
    rintro past d raw hactive ⟨hand, hfollow, h⟩
    obtain ⟨hand', hanswer, h'⟩ := h.answer hactive raw
    refine ⟨hand', fun start => ?_, ?_⟩
    · rw [List.foldl_append, hfollow, hanswer]
    · rw [List.filterMap_append]
      exact h'
  collected := by
    rintro past s ⟨hand, hfollow, h⟩
    exact ⟨hand, hfollow, h.still rfl rfl rfl rfl (fun _ => ⟨rfl, rfl⟩)
      (potTotal_collectStreetBets s)⟩
  dealt := by
    rintro past s street cards ⟨hand, hfollow, h⟩
    obtain ⟨hand', hdealt, h'⟩ := h.dealt (e := e) street cards
    refine ⟨hand', fun start => ?_, ?_⟩
    · rw [List.foldl_append, hfollow]
      exact hdealt
    · rw [List.filterMap_append]
      exact (List.append_nil _).symm ▸ h'

end Mirrors

/-! ## The setup -/

/-- The hand shows the state before the first action, in which nobody has folded. -/
structure Opening (i : Fin n) (s : GameState n) (hand : CurrentHand) : Prop
    extends Mirrors i [] s hand where
  not_folded : ∀ j, (s.players j).status ≠ .folded

namespace Opening

variable {i : Fin n} {s t : GameState n} {hand : CurrentHand}

/-- Forced bets, with the seats that they are reported to put all-in. -/
theorem posted (h : Opening i s hand) {events : List EngineEvent}
    (hevents : ∀ event ∈ events, ∃ seat total, event = .playerAllIn seat total)
    (hhand : t.handId = s.handId) (hdealer : t.dealer = s.dealer) (hstreet : t.street = s.street)
    (hboard : t.board = s.board)
    (hcards : ∀ j, (t.players j).holeCards = (s.players j).holeCards)
    (hstatus : ∀ j, (t.players j).status =
      if j.val ∈ allInSeats events then .allIn else (s.players j).status) :
    ∃ hand', events.foldl (follow i) (some hand) = some hand' ∧ Opening i t hand' := by
  obtain ⟨hand', hfollow, hsame, hallIn⟩ := foldl_follow_allIn i hevents hand
  have hnone : ∀ j, (t.players j).status ≠ .folded := by
    intro j
    rw [hstatus]
    split
    · decide
    · exact h.not_folded j
  refine ⟨hand', hfollow, ?_⟩
  rw [hsame]
  refine ⟨⟨h.handId_eq.trans hhand.symm, h.dealer_eq.trans hdealer.symm,
    h.street_eq.trans hstreet.symm, ?_, ?_, fun j => ?_, fun j => ?_, h.potTotal_eq⟩, hnone⟩
  · rw [hboard]
    exact h.board_eq
  · rw [hcards]
    exact h.holeCards_eq
  · exact (h.folded_iff j).trans (iff_of_false (h.not_folded j) (hnone j))
  · rw [hallIn, h.allIn_iff, hstatus]
    by_cases hmem : j.val ∈ allInSeats events <;> simp [hmem]

theorem antesPosted (h : Opening i s hand) :
    ∃ hand', (Game.antesPosted e s).2.foldl (follow i) (some hand) = some hand' ∧
      Opening i (Game.antesPosted e s).1 hand' := by
  have hmem : ∀ j : Fin n, j.val ∈ allInSeats (Game.antesPosted e s).2 ↔
      0 < e.rules.ante ∧ (s.players j).status = .active ∧ (s.players j).stack ≤ e.rules.ante := by
    intro j
    rw [allInSeats_antesPosted, List.mem_map]
    simp [Fin.val_inj]
  have hplayers : ∀ j, (Game.antesPosted e s).1.players j =
      if 0 < e.rules.ante then e.postAnte (s.players j) else s.players j := by
    intro j
    rw [Game.antesPosted]
    split <;> rfl
  refine h.posted (antesPosted_allIn s) ?_ ?_ ?_ ?_ (fun j => ?_) fun j => ?_
  iterate 4
    rw [Game.antesPosted]
    split <;> rfl
  · rw [hplayers, Engine.postAnte]
    split_ifs <;> simp
  · simp only [hmem, hplayers, Engine.postAnte]
    by_cases hante : 0 < e.rules.ante
    · by_cases hactive : (s.players j).status = .active
      · simp [hante, hactive, PlayerState.putAllIn_status]
      · simp [hante, hactive]
    · simp [hante]

theorem post (h : Opening i s hand) (seat : Fin n) (amount : ℕ) :
    ∃ hand', (Engine.post s seat amount).2.foldl (follow i) (some hand) = some hand' ∧
      Opening i (Engine.post s seat amount).1 hand' := by
  refine h.posted (post_allIn s seat amount) rfl rfl rfl rfl (fun j => ?_) fun j => ?_
  · rw [Engine.post, setPlayer_players]
    split
    case isTrue hj => rw [hj, PlayerState.putAllIn_holeCards]
    case isFalse => rfl
  · rw [allInSeats_post, Engine.post, setPlayer_players]
    by_cases hj : j = seat
    · subst hj
      rw [if_pos rfl, PlayerState.putAllIn_status]
      by_cases hall : (s.players j).stack ≤ amount <;> simp [hall]
    · rw [if_neg hj]
      by_cases hall : (s.players seat).stack ≤ amount <;> simp [hall, Fin.val_inj, hj]

theorem postBlinds (h : Opening i s hand) {events : List EngineEvent}
    (hpost : e.postBlinds s = some (t, events)) :
    ∃ hand', events.foldl (follow i) (some hand) = some hand' ∧ Opening i t hand' := by
  rw [Engine.postBlinds] at hpost
  split at hpost
  case isFalse => cases hpost
  case isTrue hseats =>
    obtain ⟨rfl, rfl⟩ := Prod.mk.inj (Option.some.inj hpost)
    obtain ⟨hand₁, hsb, h₁⟩ := h.post ⟨sbSeat s, hseats.1⟩ e.rules.smallBlind
    obtain ⟨hand₂, hbb, h₂⟩ := h₁.post ⟨bbSeat s, hseats.2⟩ e.rules.bigBlind
    refine ⟨hand₂, by rw [List.foldl_append, hsb, hbb], ?_, h₂.not_folded⟩
    exact h₂.toMirrors.still rfl rfl rfl rfl (fun _ => ⟨rfl, rfl⟩) rfl

/-- Of the cards that are dealt the player sees its own. -/
theorem giveCards (h : Opening i s hand) (seat : Fin n) (cards : Card × Card) :
    ∃ hand', follow i (some hand) (.holeCardsDealt seat cards) = some hand' ∧
      Opening i (s.setPlayer seat { s.players seat with holeCards := some cards }) hand' := by
  have hstatus : ∀ j, ((s.setPlayer seat { s.players seat with holeCards := some cards }).players
      j).status = (s.players j).status := by
    intro j
    rw [setPlayer_players]
    split
    case isTrue hj => rw [hj]
    case isFalse => rfl
  have hgiven : ∀ shown : CurrentHand, shown = { hand with holeCards := shown.holeCards } →
      shown.holeCards = ((s.setPlayer seat
        { s.players seat with holeCards := some cards }).players i).holeCards.map shownCards →
      Opening i (s.setPlayer seat { s.players seat with holeCards := some cards }) shown := by
    intro shown hsame hcards
    rw [hsame]
    refine ⟨⟨h.handId_eq, h.dealer_eq, h.street_eq, h.board_eq, hcards, fun j => ?_, fun j => ?_,
      h.potTotal_eq⟩, fun j => ?_⟩
    · rw [hstatus]
      exact h.folded_iff j
    · rw [hstatus]
      exact h.allIn_iff j
    · rw [hstatus]
      exact h.not_folded j
  rw [follow]
  by_cases hown : seat = i
  · subst hown
    rw [if_pos rfl]
    refine ⟨_, rfl, hgiven _ rfl ?_⟩
    rw [setPlayer_self]
    rfl
  · rw [if_neg fun heq => hown (Fin.ext heq)]
    refine ⟨hand, rfl, hgiven hand rfl ?_⟩
    rw [setPlayer_of_ne s _ (Ne.symm hown)]
    exact h.holeCards_eq

theorem dealHoleCards (h : Opening i s hand) {seats : List (Fin n)} {deck deck' : Deck}
    {events : List EngineEvent}
    (hdeal : Engine.dealHoleCards seats s deck = some (t, deck', events)) :
    ∃ hand', events.foldl (follow i) (some hand) = some hand' ∧ Opening i t hand' := by
  induction seats generalizing s deck events hand with
  | nil =>
    obtain ⟨rfl, -, rfl⟩ : s = t ∧ deck = deck' ∧ [] = events := by
      simpa [Engine.dealHoleCards] using hdeal
    exact ⟨hand, rfl, h⟩
  | cons seat seats ih =>
    rcases dealHoleCards_cons hdeal with ⟨first, _, second, _, later, -, -, -, hrest, rfl⟩ |
      ⟨-, hrest⟩
    · obtain ⟨hand₁, hgiven, h₁⟩ := h.giveCards seat (first, second)
      rw [List.foldl_cons, hgiven]
      exact ih h₁ hrest
    · exact ih h hrest

end Opening

section Hand

variable {handId : ℕ} {startingStacks : List ℕ} {dealer : ℕ}

/-- The setup of a hand without dead hands. -/
theorem after_of_setupHand (deckSeed : ℕ) (i : Fin startingStacks.length) {deck deck' : Deck}
    {s : GameState startingStacks.length} {canonicalBb : ℕ} {events : List EngineEvent}
    (h : setupHand e deck (e.initState handId startingStacks dealer) none =
      some (s, deck', canonicalBb, events)) :
    Mirrors.After i (.handStarted handId dealer deckSeed :: events) s := by
  have hquiet : ∀ event ∈ events, event.action? = none := setupHand_action? h
  obtain ⟨s₁, blinds, s₂, dealt, hblinds, hdeal, hfold, -, rfl⟩ := setupHand_cases h
  obtain rfl : s₂ = s := Option.some.inj hfold
  have hstart : Opening i (e.initState handId startingStacks dealer)
      (.started handId dealer) := by
    have hstatus : ∀ j, ((e.initState handId startingStacks dealer).players j).status ≠ .folded ∧
        ((e.initState handId startingStacks dealer).players j).status ≠ .allIn := by
      intro j
      rw [initState_players, freshPlayer]
      dsimp only
      split <;> exact ⟨by decide, by decide⟩
    exact ⟨⟨rfl, rfl, rfl, rfl, rfl, fun j => iff_of_false (List.not_mem_nil) (hstatus j).1,
      fun j => iff_of_false (List.not_mem_nil) (hstatus j).2, rfl⟩, fun j => (hstatus j).1⟩
  obtain ⟨hand₁, hantes, h₁⟩ := hstart.antesPosted (e := e)
  obtain ⟨hand₂, hposted, h₂⟩ := h₁.postBlinds hblinds
  obtain ⟨hand₃, hcards, h₃⟩ := h₂.dealHoleCards hdeal
  refine ⟨hand₃, fun start => ?_, ?_⟩
  · rw [List.foldl_cons, List.foldl_append, List.foldl_append]
    change dealt.foldl (follow i) (blinds.foldl (follow i)
      ((Game.antesPosted e (e.initState handId startingStacks dealer)).2.foldl (follow i)
        (some (.started handId dealer)))) = some hand₃
    rw [hantes, hposted, hcards]
  · have hnone : List.filterMap EngineEvent.action? (.handStarted handId dealer deckSeed ::
        ((Game.antesPosted e (e.initState handId startingStacks dealer)).2 ++ blinds ++ dealt)) =
        [] := List.filterMap_eq_nil_iff.mpr (List.forall_mem_cons.mpr ⟨rfl, hquiet⟩)
    rw [hnone]
    exact h₃.toMirrors

/-- In a hand of a table, the client of a seat that has the engine's number at the table shows
the engine's state whenever a seat is asked, if it has heard the events that the sink let
through to it, whatever it heard before the hand and in between. -/
theorem client_mirrors (e : Engine) (handId deckSeed : ℕ) (order : Fin 52 → Card)
    (startingStacks : List ℕ) (dealer : ℕ) (answers : List Action)
    (sink : BroadcastSink startingStacks.length) (i : Fin startingStacks.length)
    {core : ClientCore} (hphase : core.view.phase = .seated sink.tableId i)
    {before after : List (Output startingStacks.length)} {d : Decision startingStacks.length}
    {obs : Observation}
    (hprompt : (runHand e handId deckSeed order startingStacks dealer none answers).1 =
      before ++ .prompt d obs :: after)
    {inputs : List Input} (hinputs : ∀ input ∈ inputs, WhileSeated input)
    (earlier : List EngineEvent)
    (hheard : inputs.flatMap (heard sink.tableId) =
      earlier ++ BroadcastSink.delivered i sink (eventsOf before)) :
    ∃ hand, (core.after inputs).view.currentHand = some hand ∧
      Mirrors i (reportedActions before) d.state hand := by
  have hasked := runHand_askedIn (Mirrors.kept (e := e) i)
    (fun s deck canonicalBb events => after_of_setupHand deckSeed i) answers before d obs after
    hprompt
  rw [List.nil_append] at hasked
  obtain ⟨shown, hfollow, hmirrors⟩ := hasked
  have hshows := (after_follows (.refl hphase) hinputs).hand
  rw [hheard, List.foldl_append, foldl_follow_delivered, hfollow] at hshows
  obtain ⟨hand, hhand, rfl⟩ := Option.map_eq_some_iff.mp hshows
  -- what is mirrored is no part of the prompt
  exact ⟨hand, hhand, hmirrors.handId_eq, hmirrors.dealer_eq, hmirrors.street_eq,
    hmirrors.board_eq, hmirrors.holeCards_eq, hmirrors.folded_iff, hmirrors.allIn_iff,
    hmirrors.potTotal_eq⟩

end Hand

/-- A player of seat 1, who has just sat down. -/
def seatedCore : ClientCore := ((ClientCore.new none).after [.message (.joinedTable 1 1 [])])

/-- The outputs of a hand of two seats, in which the first one to act calls. -/
def calledHand : List (Output [200, 200].length) :=
  (runHand ⟨.noLimitHoldem 1 2, ⟨fun _ => 0⟩⟩ 7 0 (fun i => ⟨i⟩) [200, 200] 0 none [.call]).1

/-- What the sink sends to seat 1 before a prompt of the hand. -/
def sentBefore (before : List (Output [200, 200].length)) : List Input :=
  (BroadcastSink.delivered (1 : Fin 2) (BroadcastSink.new 1 freshLinks) (eventsOf before)).map
    fun ev => .message (.tableEvent 1 ev)

theorem client_mirrors_called : ∃ before d obs after,
    calledHand = before ++ .prompt d obs :: after ∧
      ∃ hand, (seatedCore.after (sentBefore before)).view.currentHand = some hand ∧
        Mirrors (1 : Fin 2) (reportedActions before) d.state hand := by
  obtain ⟨⟨d, obs⟩, hasked⟩ : ∃ p, p ∈ promptsOf calledHand :=
    List.exists_mem_of_length_pos (by decide +kernel)
  obtain ⟨output, hmem, hprompt⟩ := List.mem_filterMap.mp hasked
  obtain ⟨before, after, hsplit⟩ := List.append_of_mem hmem
  cases output with
  | prompt d' obs' =>
    refine ⟨before, d', obs', after, hsplit, ?_⟩
    refine client_mirrors ⟨.noLimitHoldem 1 2, ⟨fun _ => 0⟩⟩ 7 0 (fun i => ⟨i⟩) [200, 200] 0 [.call]
      (BroadcastSink.new 1 freshLinks) (1 : Fin 2) rfl hsplit (fun input hinput => ?_)
      [] ?_
    · obtain ⟨ev, -, rfl⟩ := List.mem_map.mp hinput
      exact .event 1 ev
    · rw [sentBefore, List.flatMap_map, List.nil_append]
      exact List.flatMap_singleton' _
  | event | notify => cases hprompt

end VibePoker.Client
