import VibePoker.Game.Dealing

/-!
# No card is dealt twice

Whatever the random generator draws, the deck has every card once. A hand at a table with at
most 23 seats with chips deals from its top, on the engine and on the stepper, and does not
come to its end. The nodes of a stepper that is cloned and played on differently show the
same board, as far as they show it.

## Main definitions

* `DealsOnce` — what a hand does with its deck

## Main results

* `cards_dealt_once` — every hand of every shuffled deck
-/

namespace VibePoker.Game

open VibePoker.Core VibePoker.CS

variable {n : ℕ} {e : Engine}

/-- A node of the stepper from which another is reached, by whatever answers. -/
def GameTree.Reaches (e : Engine) (t t' : GameTree n) : Prop :=
  ∃ answers, Trace (GameTree.Step e fun _ _ => True) t answers t'

/-- What a hand does with its deck. Running out of cards would be a panic, while the hole
cards are dealt or later. -/
structure DealsOnce (e : Engine) (handId deckSeed : ℕ) (order : Fin 52 → Card)
    (startingStacks : List ℕ) (dealer : ℕ) (seatKinds : Option (List SeatKind)) : Prop where
  /-- The cards of a hand on the engine are distinct. -/
  engine : ∀ answers, (reportedCards
    (runHand e handId deckSeed order startingStacks dealer seatKinds answers).1).Nodup
  /-- The cards of a hand on the stepper are distinct. -/
  stepper : ∀ answers, (reportedCards
    (GameTree.playHand e handId deckSeed order startingStacks dealer seatKinds answers).1).Nodup
  /-- The deck has the hole cards. -/
  has_holeCards : ∀ s blinds,
    e.postBlinds (antesPosted e (e.initState handId startingStacks dealer)).1 = some (s, blinds) →
      (Engine.dealHoleCards (List.finRange startingStacks.length) s (.new order)).isSome
  /-- A hand that starts goes on without a panic, on the engine. -/
  has_board : (GameTree.new e handId deckSeed order startingStacks dealer seatKinds).2.isSome →
    ∀ answers,
      (runHand e handId deckSeed order startingStacks dealer seatKinds answers).2 ≠ .panicked
  /-- It does so on the stepper and its clones. -/
  leads_on : ∀ root t,
    (GameTree.new e handId deckSeed order startingStacks dealer seatKinds).2 = some root →
      root.Reaches e t → t.decision?.isSome → ∀ action, (t.applyAction e action).2.isSome
  /-- The cards of the seats and of the board are distinct at every node. -/
  distinct : ∀ root t,
    (GameTree.new e handId deckSeed order startingStacks dealer seatKinds).2 = some root →
      root.Reaches e t → (t.state.seatCards ++ t.state.board).Nodup
  /-- Clones have the same hole cards and the same board, as far as it is dealt. -/
  clones : ∀ root t t₁ t₂,
    (GameTree.new e handId deckSeed order startingStacks dealer seatKinds).2 = some root →
      root.Reaches e t → t.Reaches e t₁ → t.Reaches e t₂ →
      t₁.state.seatCards = t₂.state.seatCards ∧
        (t₁.state.board <+: t₂.state.board ∨ t₂.state.board <+: t₁.state.board)

/-! ## The nodes of a hand -/

namespace GameTree

theorem Reaches.trans {t u v : GameTree n} (h : t.Reaches e u) (h' : u.Reaches e v) :
    t.Reaches e v := by
  obtain ⟨answers, htrace⟩ := h
  obtain ⟨later, htrace'⟩ := h'
  exact ⟨answers ++ later, htrace.append htrace'⟩

/-- What the board shows of a node is followed by the cards of its deck, and that is the
same at all nodes. -/
structure SameCards (root t : GameTree n) : Prop where
  seats_eq : t.state.seatCards = root.state.seatCards
  board_eq : t.state.board ++ t.deck.toCome = root.state.board ++ root.deck.toCome
  fits : ∀ d, t.decision? = some d → BoardFits d.state

/-- One answer moves cards from the deck to the board. -/
theorem SameCards.step {root t t' : GameTree n} {ok : Decision n → Action → Prop}
    {action : Action} (h : SameCards root t) (hstep : Step e ok t action t') :
    SameCards root t' := by
  obtain ⟨d, hd, -, hnext⟩ := hstep
  have hdeals := dealsOn_applyAction (e := e) hd (h.fits d hd) action
  refine ⟨(hdeals.seats_eq t' hnext).trans h.seats_eq, ?_, fun d' hd' => hdeals.fits t' d' hnext hd'⟩
  calc t'.state.board ++ t'.deck.toCome
      = t.state.board ++ ((t.applyAction e action).1.flatMap EngineEvent.cards ++
          t'.deck.toCome) := by rw [hdeals.board_eq t' hnext, List.append_assoc]
    _ = t.state.board ++ t.deck.toCome := by rw [← hdeals.deck_eq t' hnext]
    _ = root.state.board ++ root.deck.toCome := h.board_eq

theorem Reaches.sameCards {root t : GameTree n}
    (hfits : ∀ d, root.decision? = some d → BoardFits d.state) (h : root.Reaches e t) :
    SameCards root t := by
  obtain ⟨answers, htrace⟩ := h
  exact htrace.invariant (SameCards root) (fun _ _ _ hsame hstep => hsame.step hstep)
    ⟨rfl, rfl, hfits⟩

/-- All cards of a node are those of the first node. -/
theorem SameCards.allCards_eq {root t : GameTree n} (h : SameCards root t) :
    t.allCards = root.allCards := by
  rw [allCards, allCards, List.append_assoc, List.append_assoc, h.board_eq, h.seats_eq]

/-- Two nodes of a tree show the same board, as far as they show it. -/
theorem SameCards.boards {root t₁ t₂ : GameTree n} (h₁ : SameCards root t₁)
    (h₂ : SameCards root t₂) :
    t₁.state.board <+: t₂.state.board ∨ t₂.state.board <+: t₁.state.board := by
  refine List.prefix_or_prefix_of_prefix ⟨t₁.deck.toCome, h₁.board_eq⟩ ?_
  exact ⟨t₂.deck.toCome, h₂.board_eq⟩

end GameTree

/-! ## Enough cards -/

section Hand

variable {handId deckSeed : ℕ} {order : Fin 52 → Card} {startingStacks : List ℕ} {dealer : ℕ}
  {seatKinds : Option (List SeatKind)}

/-- At a table without chips at most the blind seats are dealt cards. -/
theorem cardsDealt_le_of_unfunded {s : GameState startingStacks.length}
    (hs : s.players = forcedPlayer e startingStacks dealer)
    (hunfunded : ¬ 0 < fundedSeats startingStacks) :
    cardsDealt (List.finRange startingStacks.length) s ≤ 4 := by
  set seats := (List.finRange startingStacks.length).filter fun i => (s.players i).stillIn
    with hseats
  have hblinds : seats.map Fin.val ⊆ [sbSeat (e.initState 0 startingStacks dealer),
      bbSeat (e.initState 0 startingStacks dealer)] := by
    intro seat hseat
    obtain ⟨i, hi, rfl⟩ := List.mem_map.mp hseat
    have hin : (forcedPlayer e startingStacks dealer i).stillIn := by
      rw [← hs]
      simpa using (List.mem_filter.mp hi).2
    by_contra hnot
    have hsb : postsSb e startingStacks dealer i = false := by simp_all [postsSb]
    have hbb : postsBb e startingStacks dealer i = false := by simp_all [postsBb]
    have hpos : 0 < startingStacks.get i := by
      simpa [forcedPlayer, forcedBets, hsb, hbb] using hin
    exact hunfunded (fundedSeats_pos hpos)
  have hnodup : (seats.map Fin.val).Nodup :=
    ((List.nodup_finRange _).filter _).map Fin.val_injective
  have hle := (hnodup.subperm hblinds).length_le
  rw [List.length_map] at hle
  rw [cardsDealt, ← hseats]
  simp only [List.length_cons, List.length_nil] at hle
  omega

theorem dealHoleCards_isSome (hcards : fundedSeats startingStacks ≤ 23)
    {s : GameState startingStacks.length} {blinds : List EngineEvent}
    (h : e.postBlinds (antesPosted e (e.initState handId startingStacks dealer)).1 =
      some (s, blinds)) :
    (Engine.dealHoleCards (List.finRange startingStacks.length) s (.new order)).isSome := by
  have hplayers : s.players = forcedPlayer e startingStacks dealer := by
    rw [postBlinds_forced h]
  have hle : (Deck.new order).cursor + cardsDealt (List.finRange startingStacks.length) s ≤ 52 := by
    rw [show (Deck.new order).cursor = 0 from rfl]
    by_cases hfunded : 0 < fundedSeats startingStacks
    · rw [forced_cardsDealt hfunded hplayers]
      omega
    · have := cardsDealt_le_of_unfunded hplayers hfunded
      omega
  obtain ⟨hole, events, hdeal, -⟩ := dealHoleCards_of_le (List.nodup_finRange _) hle
  rw [hdeal]
  rfl

/-- A hand that starts does not panic. -/
theorem runHand_ne_panicked (hcards : fundedSeats startingStacks ≤ 23)
    (hstarts : (GameTree.new e handId deckSeed order startingStacks dealer seatKinds).2.isSome)
    (answers : List Action) :
    (runHand e handId deckSeed order startingStacks dealer seatKinds answers).2 ≠ .panicked := by
  intro hpanicked
  rcases @runHand_trace e handId deckSeed order _ _ _ _ (fun _ _ => True)
      (fun _ _ => trivial) with
    ⟨hnone, -⟩ | ⟨t, used, rest, t', hnew, -, htrace, hends⟩
  · rw [hnone] at hstarts
    cases hstarts
  · rw [hpanicked] at hends
    cases hends with
    | panicked hstuck =>
      exact not_stuck (playing_of_trace htrace (playing_new hnew)) (by omega) rest hstuck

end Hand

/-! ## The theorem -/

/-- Whatever the random generator draws, the shuffled deck has each card once, and a hand at
a table with at most 23 seats with chips deals it without repetition and to no end, on the
engine and on all clones of the stepper. -/
theorem cards_dealt_once {ρ : Type*} (rng : RangeRng ρ) (e : Engine) (handId deckSeed : ℕ)
    (startingStacks : List ℕ) (dealer : ℕ) (seatKinds : Option (List SeatKind)) :
    Function.Bijective (rng.order deckSeed) ∧
      (fundedSeats startingStacks ≤ 23 →
        DealsOnce e handId deckSeed (rng.order deckSeed) startingStacks dealer seatKinds) := by
  have hbijective := rng.order_bijective deckSeed
  have hnodup : (List.ofFn (rng.order deckSeed)).Nodup :=
    List.nodup_ofFn.mpr hbijective.injective
  refine ⟨hbijective, fun hcards => ?_⟩
  have hnode : ∀ root t,
      (GameTree.new e handId deckSeed (rng.order deckSeed) startingStacks dealer seatKinds).2 =
        some root → root.Reaches e t → GameTree.SameCards root t := fun root t hnew hreach =>
    hreach.sameCards (GameTree.deck_of_new hnew).2.2
  refine
    { engine := fun answers =>
        (reportedCards_runHand handId deckSeed _ startingStacks dealer seatKinds answers).sublist.nodup
          hnodup
      stepper := fun answers => (GameTree.reportedCards_playHand answers).sublist.nodup hnodup
      has_holeCards := fun s blinds => dealHoleCards_isSome hcards
      has_board := runHand_ne_panicked hcards
      leads_on := ?_
      distinct := ?_
      clones := ?_ }
  · rintro root t hnew ⟨answers, htrace⟩ hdecision action
    obtain ⟨d, hd⟩ := Option.isSome_iff_exists.mp hdecision
    have hplaying := playing_of_trace htrace (playing_new hnew) d hd
    obtain ⟨t', hnext⟩ := applyAction_isSome (e := e) hplaying (by omega) hd action
    exact Option.isSome_iff_exists.mpr ⟨t', hnext⟩
  · intro root t hnew hreach
    have hall := (hnode root t hnew hreach).allCards_eq.trans (GameTree.deck_of_new hnew).1
    rw [← hall, GameTree.allCards] at hnodup
    exact hnodup.of_append_left
  · intro root t t₁ t₂ hnew hreach hreach₁ hreach₂
    have hsame₁ := hnode root t₁ hnew (hreach.trans hreach₁)
    have hsame₂ := hnode root t₂ hnew (hreach.trans hreach₂)
    exact ⟨hsame₁.seats_eq.trans hsame₂.seats_eq.symm, hsame₁.boards hsame₂⟩

/-- A generator that always draws the lower bound. -/
def lowestRng : RangeRng Unit := ⟨fun _ => (), fun _ _ => (0, ())⟩

/-- A heads-up hand with its deck. -/
theorem deals_once_heads_up :
    DealsOnce ⟨.noLimitHoldem 1 2, ⟨fun _ => 0⟩⟩ 1 7 (lowestRng.order 7) [100, 100] 0 none :=
  (cards_dealt_once lowestRng ⟨.noLimitHoldem 1 2, ⟨fun _ => 0⟩⟩ 1 7 [100, 100] 0 none).2
    (by decide)

end VibePoker.Game
