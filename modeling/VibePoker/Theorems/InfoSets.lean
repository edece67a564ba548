import VibePoker.Game.FaceDownTree
import VibePoker.Theorems.AbstractHistory

/-!
# What a key stands for

The key of a decision keeps the street, the position relative to the dealer, the class of the
hole cards and the abstract actions so far. At a table of two that determines the decision: the
stepper looks at no card before the showdown, so the actions lead to the same chips from any
deck, and between equal stacks the dealer is only a matter of numbering.

## Main definitions

* `Visits` — a traversal comes to a decision
* `SameDecision` — what is to be decided, up to the numbers of the seats

## Main results

* `sameDecision_of_infoSet_eq` — decisions under one key are the same
-/

namespace VibePoker.Trainer

open VibePoker.Core VibePoker.CS VibePoker.Math VibePoker.Game

variable {n m : ℕ} {e : Engine}

/-! ## The statement -/

/-- What a traversal is shown after the choices; `none` if they do not lead to a decision. -/
def shownAfter (e : Engine) (deckSeed : ℕ) (order : Fin 52 → Card) (startingStacks : List ℕ)
    (dealer : ℕ) (choices : List AbstractAction) : Option Observation := do
  let t₀ ← (GameTree.new e 0 deckSeed order startingStacks dealer none).2
  let t ← choices.foldlM (descend e) t₀
  t.observationOwned e

/-- A traversal of some deck comes by the choices to a decision that is shown as `obs`. -/
def Visits (e : Engine) (startingStacks : List ℕ) (dealer : ℕ) (choices : List AbstractAction)
    (obs : Observation) : Prop :=
  ∃ deckSeed order, shownAfter e deckSeed order startingStacks dealer choices = some obs

/-- The same decision of two seats, when each gets the number that `seat` gives it. -/
structure SameDecision (seat : ℕ → ℕ) (obs obs' : Observation) : Prop where
  position_eq : obs'.position = seat obs.position
  street_eq : obs'.street = obs.street
  pot_eq : obs'.pot = obs.pot
  players_eq : ∀ i < 2, ∃ p, obs.players[i]? = some p ∧
    obs'.players[seat i]? = some { p with seat := seat i }
  legalActions_eq : obs'.legalActions = obs.legalActions
  legalAbstractActions_eq :
    legalAbstractActions obs'.legalActions = legalAbstractActions obs.legalActions
  concretize_eq : ∀ a, concretize a obs' = concretize a obs

/-- The other one of two seats. -/
def otherSeat (seat : ℕ) : ℕ := 1 - seat

/-! ## Choices and what they stand for -/

/-- What a choice stands for depends on the legal actions and on the chips. -/
theorem concretize_congr {obs obs' : Observation} (hlegal : obs'.legalActions = obs.legalActions)
    (hpot : obs'.pot = obs.pot)
    (hbets : (obs'.players.map PublicPlayerState.betThisStreet).sum =
      (obs.players.map PublicPlayerState.betThisStreet).sum) (a : AbstractAction) :
    concretize a obs' = concretize a obs := by
  have htarget : potTarget obs' = potTarget obs := by
    rw [potTarget, potTarget, hlegal, hpot, hbets]
  cases a <;> simp only [concretize, hlegal, htarget]

theorem concretize_faceDown (a : AbstractAction) (obs : Observation) :
    concretize a obs.faceDown = concretize a obs := concretize_congr rfl rfl rfl a

theorem sum_bets_publicPlayers (s : GameState n) :
    ((publicPlayers s.players).map PublicPlayerState.betThisStreet).sum =
      ∑ i, (s.players i).betThisStreet := by
  rw [publicPlayers, List.map_ofFn, List.sum_ofFn]
  rfl

theorem concretize_reseat (μ : Reseating n m) {d : Decision n} {obs : Observation}
    (hobs : d.observation e = some obs) (a : AbstractAction) :
    concretize a (obs.reseat μ) = concretize a obs := by
  have hplayers := Decision.observation_players hobs
  have hbets : ((reseatPlayers μ obs.players).map PublicPlayerState.betThisStreet).sum =
      (obs.players.map PublicPlayerState.betThisStreet).sum := by
    rw [hplayers, ← publicPlayers_reseat, sum_bets_publicPlayers, sum_bets_publicPlayers]
    exact μ.sum fun i => (d.state.players i).betThisStreet
  have hlegal : (obs.reseat μ).legalActions = obs.legalActions := rfl
  exact concretize_congr hlegal rfl hbets a

/-! ## Paths -/

theorem Descends.faceDown {t u : GameTree n} {a : AbstractAction} {d : Decision n}
    (h : Descends e t a u) (hd : u.decision? = some d) :
    Descends e t.faceDown a u.faceDown := by
  obtain ⟨d₀, obs, hd₀, hobs, happly⟩ := descend_eq_some_iff.mp h
  refine descend_eq_some_iff.mpr ⟨d₀.faceDown, obs.faceDown, ?_, ?_, ?_⟩
  · rw [GameTree.decision?_faceDown, hd₀, Option.map_some]
  · rw [observation_faceDown, hobs, Option.map_some]
  · rw [concretize_faceDown]
    exact GameTree.applyAction_faceDown happly hd

/-- A path to a decision, face down. -/
theorem path_faceDown {t u : GameTree n} {choices : List AbstractAction} {d : Decision n}
    (h : Trace (Descends e) t choices u) (hd : u.decision? = some d) :
    Trace (Descends e) t.faceDown choices u.faceDown := by
  induction h with
  | nil t => exact .nil _
  | cons head tail ih =>
    obtain ⟨d', hd'⟩ := decision_of_descends tail hd
    exact .cons (Descends.faceDown head hd') (ih hd)

theorem Descends.reseat {μ : Reseating n m} {bound : ℕ} {t u : GameTree n} {a : AbstractAction}
    (hdeals : GameTree.DealsAt μ bound t) (h : Descends e t a u) :
    Descends e (t.reseat μ) a (u.reseat μ) ∧ GameTree.DealsAt μ bound u := by
  obtain ⟨d, obs, hd, hobs, happly⟩ := descend_eq_some_iff.mp h
  obtain ⟨hstep, hlater⟩ := GameTree.applyAction_reseat (e := e) hdeals (concretize a obs)
  refine ⟨descend_eq_some_iff.mpr ⟨d.reseat μ, obs.reseat μ, ?_, ?_, ?_⟩, hlater u happly⟩
  · rw [GameTree.decision?_reseat, hd, Option.map_some]
  · rw [observation_reseat, hobs, Option.map_some]
  · rw [concretize_reseat μ hobs, hstep, GameTree.reseatStart, happly, Option.map_some]

/-- A path at the other seats. -/
theorem path_reseat {μ : Reseating n m} {bound : ℕ} {t u : GameTree n}
    {choices : List AbstractAction} (hdeals : GameTree.DealsAt μ bound t)
    (h : Trace (Descends e) t choices u) :
    Trace (Descends e) (t.reseat μ) choices (u.reseat μ) := by
  induction h with
  | nil t => exact .nil _
  | cons head _ ih =>
    obtain ⟨hhead, hlater⟩ := Descends.reseat hdeals head
    exact .cons hhead (ih hlater)

theorem Visits.path {startingStacks : List ℕ} {dealer : ℕ} {choices : List AbstractAction}
    {obs : Observation} (h : Visits e startingStacks dealer choices obs) :
    ∃ deckSeed order t₀ t,
      (GameTree.new e 0 deckSeed order startingStacks dealer none).2 = some t₀ ∧
        Trace (Descends e) t₀ choices t ∧ t.observationOwned e = some obs := by
  obtain ⟨deckSeed, order, hshown⟩ := h
  simp only [shownAfter, Option.bind_eq_bind, Option.bind_eq_some_iff] at hshown
  obtain ⟨t₀, hroot, t, hpath, hobs⟩ := hshown
  exact ⟨deckSeed, order, t₀, t, hroot, Trace.of_foldlM hpath, hobs⟩

/-- A path ends in one tree. -/
theorem path_unique {t u u' : GameTree n} {choices : List AbstractAction}
    (h : Trace (Descends e) t choices u) (h' : Trace (Descends e) t choices u') : u = u' :=
  h.eq_of_functional (fun _ _ _ _ hstep hstep' => Option.some.inj (hstep.symm.trans hstep')) h'

/-! ## Two hands of one table -/

/-- A renumbering of the seats for hands whose cards lie face down. -/
def blindReseating (ρ : Rotation n n) : Reseating n n :=
  { ρ with
    handId := 0
    cards := fun _ => back }

/-- Counting two seats from the second one on swaps them. -/
theorem swap_val (h : n = 2) (i : Fin n) : (Rotation.shift 1 rfl i : Fin n) = otherSeat i := by
  subst h
  change (i + (2 - 1 % 2)) % 2 = 1 - (i : ℕ)
  omega

section Table

variable {startingStacks : List ℕ} {ρ : Rotation startingStacks.length startingStacks.length}
  {dealer dealer' : ℕ} {choices choices' : List AbstractAction} {obs obs' : Observation}

theorem deal_blindReseating (hseats : startingStacks.length = 2)
    (hstacks : ∀ i, startingStacks.get (ρ i) = startingStacks.get i)
    (hdealer : dealer' = ρ.seat dealer) :
    (blindReseating ρ).Deal (fun _ => back) dealer dealer' none none where
  stack_eq := hstacks
  dealer_eq := hdealer
  kinds_eq _ := rfl
  kindsFit h := h
  holeCards_eq i _ := by
    have hpair : ∀ seat, holeCardsInOrder (fun _ => back) startingStacks seat =
        some (back, back) := by
      intro seat
      have hfew : fundedSeats (startingStacks.take seat) ≤ startingStacks.length :=
        List.countP_le_length.trans (List.length_take_le' seat startingStacks)
      exact dif_pos (by omega)
    exact (hpair _).trans (hpair _).symm
  board_eq _ _ _ := rfl

/-- The same choices from two decks and two dealers that differ by a rotation between equal
stacks: up to the faces of the cards, one is shown what the other one is shown at the other
seats. -/
theorem faceDown_eq_reseat (hseats : startingStacks.length = 2)
    (hstacks : ∀ i, startingStacks.get (ρ i) = startingStacks.get i)
    (hdealer : dealer' = ρ.seat dealer) (h : Visits e startingStacks dealer choices obs)
    (h' : Visits e startingStacks dealer' choices obs') :
    ∃ d : Decision startingStacks.length, d.observation e = some obs.faceDown ∧
      obs'.faceDown = obs.faceDown.reseat (blindReseating ρ) := by
  obtain ⟨deckSeed, order, t₀, t, hroot, hpath, hobs⟩ := h.path
  obtain ⟨deckSeed', order', t₀', t', hroot', hpath', hobs'⟩ := h'.path
  obtain ⟨d, hd, hseen⟩ := observationOwned_eq_some_iff.mp hobs
  obtain ⟨d', hd', -⟩ := observationOwned_eq_some_iff.mp hobs'
  obtain ⟨d₀, hd₀⟩ := decision_of_descends hpath hd
  obtain ⟨d₀', hd₀'⟩ := decision_of_descends hpath' hd'
  have hblind := GameTree.new_faceDown hroot hd₀ 0
  have hblind' := GameTree.new_faceDown hroot' hd₀' 0
  have hblind₀ : t₀.faceDown.decision? = some d₀.faceDown := by
    rw [GameTree.decision?_faceDown, hd₀, Option.map_some]
  obtain ⟨hdeals, hnew⟩ :=
    (deal_blindReseating hseats hstacks hdealer).new_eq_of_decision hblind hblind₀ 0
  -- the second hand starts as the first one does at the other seats
  have hstart : t₀'.faceDown = t₀.faceDown.reseat (blindReseating ρ) :=
    Option.some.inj (hblind'.symm.trans hnew)
  have hend : t'.faceDown = t.faceDown.reseat (blindReseating ρ) := by
    refine path_unique (path_faceDown hpath' hd') ?_
    rw [hstart]
    exact path_reseat hdeals (path_faceDown hpath hd)
  have hseen' : d.faceDown.observation e = some obs.faceDown := by
    rw [observation_faceDown, hseen, Option.map_some]
  refine ⟨d.faceDown, hseen', ?_⟩
  have hlast : (t.faceDown.reseat (blindReseating ρ)).decision? =
      some (d.faceDown.reseat (blindReseating ρ)) := by
    rw [GameTree.decision?_reseat, GameTree.decision?_faceDown, hd, Option.map_some,
      Option.map_some]
  have hblindObs := GameTree.observationOwned_faceDown (e := e) t'
  rw [hobs', hend, GameTree.observationOwned_of_decision hlast, observation_reseat, hseen',
    Option.map_some, Option.map_some] at hblindObs
  exact (Option.some.inj hblindObs).symm

theorem sameDecision_of_reseat (hseats : startingStacks.length = 2) {seat : ℕ → ℕ}
    (hseat : ∀ i, (ρ i : ℕ) = seat i)
    {d : Decision startingStacks.length} (hobs : d.observation e = some obs.faceDown)
    (h : obs'.faceDown = obs.faceDown.reseat (blindReseating ρ)) : SameDecision seat obs obs' := by
  have hlegal : obs'.legalActions = obs.legalActions := by
    have hkept := congrArg Observation.legalActions h
    exact hkept
  have hstreet : obs'.street = obs.street := by
    have hkept := congrArg Observation.street h
    exact hkept
  have hpot : obs'.pot = obs.pot := by
    have hkept := congrArg Observation.pot h
    exact hkept
  have hplayers : obs.players = publicPlayers d.state.players := by
    have hseen := Decision.observation_players hobs
    exact hseen
  have hposition : obs.position = d.seat := by
    have hseen := Decision.observation_position hobs
    exact hseen
  have hplayers' : obs'.players = publicPlayers (d.state.reseat (blindReseating ρ)).players := by
    rw [publicPlayers_reseat, ← hplayers]
    exact congrArg Observation.players h
  refine ⟨?_, hstreet, hpot, ?_, hlegal, congrArg legalAbstractActions hlegal, fun a => ?_⟩
  · -- the position moves with the seats, and so do the players below
    have hrenumbered : obs'.position = ρ.seat obs.position := congrArg Observation.position h
    rw [hrenumbered, hposition, ρ.seat_val, hseat]
  · intro i hi
    rw [← hseats] at hi
    have hvalue := d.state.reseat_players (blindReseating ρ) ⟨i, hi⟩
    refine ⟨_, by rw [hplayers, publicPlayers, List.getElem?_ofFn, dif_pos hi], ?_⟩
    rw [hplayers', publicPlayers, ← hseat ⟨i, hi⟩, List.getElem?_ofFn, dif_pos (ρ ⟨i, hi⟩).isLt]
    simp only [Fin.eta]
    exact congrArg some (by rw [← hvalue]; rfl)
  · rw [← concretize_faceDown a obs', h, concretize_reseat _ hobs, concretize_faceDown]

/-- At a table of two, decisions under one key are the same, whatever the decks; between equal
stacks also those of the other dealer, with the seats swapped. -/
theorem sameDecision_of_infoSet_eq (hseats : startingStacks.length = 2) (hdealer : dealer < 2)
    (hdealer' : dealer' < 2) (h : Visits e startingStacks dealer choices obs)
    (h' : Visits e startingStacks dealer' choices' obs')
    (hkey : InfoSet.fromObservation obs choices = .fromObservation obs' choices') :
    (dealer' = dealer → SameDecision id obs obs') ∧
      ((∀ i j, startingStacks.get i = startingStacks.get j) → dealer' ≠ dealer →
        SameDecision otherSeat obs obs') := by
  obtain rfl : choices = choices' := congrArg InfoSet.history hkey
  constructor
  · intro heq
    have hseat : dealer' = (Rotation.refl startingStacks.length).seat dealer := by
      rw [Rotation.refl_seat (by rwa [hseats]), heq]
    obtain ⟨d, hseen, hsame⟩ := faceDown_eq_reseat hseats (fun _ => rfl) hseat h h'
    exact sameDecision_of_reseat hseats (fun _ => rfl) hseen hsame
  · intro hstacks hne
    have hother := swap_val hseats
    have hseat : dealer' = (Rotation.shift 1 rfl : Rotation startingStacks.length _).seat dealer := by
      have hval := Rotation.seat_val (Rotation.shift 1 rfl)
        (⟨dealer, by rwa [hseats]⟩ : Fin startingStacks.length)
      rw [hval, hother, otherSeat]
      dsimp only
      omega
    obtain ⟨d, hseen, hsame⟩ := faceDown_eq_reseat hseats (fun _ => hstacks _ _) hseat h h'
    exact sameDecision_of_reseat hseats hother hseen hsame

end Table

/-- After a raise of either dealer the other seat decides, with the same cards in hand. -/
theorem sameDecision_after_raise :
    ∃ obs obs', Visits smallGame [50, 50] 0 [.raise] obs ∧
      Visits smallGame [50, 50] 1 [.raise] obs' ∧ SameDecision otherSeat obs obs' := by
  -- the second deck has the cards of the first one, two places later
  have hshown : (shownAfter smallGame 0 Card.mk [50, 50] 0 [.raise]).bind (fun obs =>
      (shownAfter smallGame 0 (fun k => ⟨k - 2⟩) [50, 50] 1 [.raise]).map fun obs' =>
        decide (InfoSet.fromObservation obs [.raise] = .fromObservation obs' [.raise])) =
      some true := by decide +kernel
  obtain ⟨obs, hobs, hshown⟩ := Option.bind_eq_some_iff.mp hshown
  obtain ⟨obs', hobs', hkey⟩ := Option.map_eq_some_iff.mp hshown
  exact ⟨obs, obs', ⟨0, _, hobs⟩, ⟨0, _, hobs'⟩,
    (sameDecision_of_infoSet_eq (by decide) (by decide) (by decide) ⟨0, _, hobs⟩ ⟨0, _, hobs'⟩
      (of_decide_eq_true hkey)).2 (by decide) (by decide)⟩

end VibePoker.Trainer
