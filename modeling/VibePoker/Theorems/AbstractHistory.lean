import VibePoker.Game.ReseatHand
import VibePoker.Trainer.Descent

/-!
# Keys of the trainer and keys of play

The trainer stores what it learns at a decision under the abstract actions that led there, as
they were chosen. An adapter looks it up under the actions that it has heard of, as they were
applied. The two keys agree exactly on the paths on which every choice is applied under its
own name. A raise of the size of the pot that takes the whole stack is not: it is applied, and
heard, as an all-in.

## Main definitions

* `StoredAsLookedUp` — the keys of a path agree

## Main results

* `storedAsLookedUp_iff` — they do exactly when all choices of the path survive
-/

namespace VibePoker.Trainer

open VibePoker.Core VibePoker.CS VibePoker.Math VibePoker.Game

variable {n : ℕ} {e : Engine}

/-! ## The last prompt of a run -/

theorem promptsOf_filter_isCore (outputs : List (Output n)) :
    promptsOf (outputs.filter Output.isCore) = promptsOf outputs :=
  promptsOf_core (outputs, .waiting)

/-- A run that asks last has a part before the last prompt. -/
theorem exists_before_prompt {outputs asked : List (Output n)} {d : Decision n}
    {obs : Observation} (h : outputs.filter Output.isCore = asked ++ [.prompt d obs]) :
    ∃ before after, outputs = before ++ .prompt d obs :: after ∧
      before.filter Output.isCore = asked := by
  obtain ⟨first, last, rfl, hfirst, hlast⟩ := List.filter_eq_append_iff.mp h
  obtain ⟨told, after, rfl, htold, -, -⟩ := List.filter_eq_cons_iff.mp hlast
  refine ⟨first ++ told, after, by rw [List.append_assoc], ?_⟩
  rw [List.filter_append, hfirst, List.filter_eq_nil_iff.mpr htold, List.append_nil]

/-- The prompt that has as many before it as the last one is the last one. -/
theorem prompt_eq_last {outputs asked before after : List (Output n)} {d d' : Decision n}
    {obs obs' : Observation} (h : outputs.filter Output.isCore = asked ++ [.prompt d obs])
    (hsplit : outputs = before ++ .prompt d' obs' :: after)
    (hlength : (promptsOf before).length = (promptsOf asked).length) :
    before.filter Output.isCore = asked ∧ obs' = obs := by
  rw [← promptsOf_filter_isCore before] at hlength
  rw [hsplit, List.filter_append, List.filter_cons_of_pos rfl] at h
  obtain ⟨mid, hasked, hmid⟩ | ⟨mid, hbefore, hmid⟩ := List.append_eq_append_iff.mp h
  · cases mid with
    | nil =>
      obtain ⟨hprompt, -⟩ := List.cons.inj hmid
      exact ⟨by rw [hasked, List.append_nil], (Output.prompt.inj hprompt).2⟩
    | cons first mid =>
      -- then the last prompt would come later than the one of the split
      obtain ⟨rfl, -⟩ := List.cons.inj hmid
      rw [hasked, promptsOf_append, List.length_append, promptsOf_cons_prompt,
        List.length_cons] at hlength
      omega
  · obtain ⟨rfl, hprompt⟩ | ⟨-, hnil⟩ := List.singleton_eq_append_iff.mp hmid
    · exact ⟨by rw [hbefore, List.append_nil], (Output.prompt.inj (List.cons.inj hprompt).1).2⟩
    · cases hnil

/-! ## The same path in a numbered hand -/

section Hand

variable {handId deckSeed : ℕ} {order : Fin 52 → Card} {startingStacks : List ℕ} {dealer : ℕ}
  {t₀ t : GameTree startingStacks.length} {choices : List AbstractAction}

/-- The seats stay, and the hand gets a number. -/
def renumbering (n handId : ℕ) (order : Fin 52 → Card) : Reseating n n :=
  { Rotation.refl n with
    handId := handId
    cards := order }

theorem deal_renumbering (hdealer : dealer < startingStacks.length) :
    (renumbering startingStacks.length handId order).Deal order dealer dealer none none where
  stack_eq _ := rfl
  dealer_eq := (Rotation.refl_seat hdealer).symm
  kinds_eq _ := rfl
  kindsFit h := h
  holeCards_eq _ _ := rfl
  board_eq _ _ _ := rfl

/-- A numbered hand starts with the tree that the trainer starts with, but for the number. -/
theorem new_renumbering (hdealer : dealer < startingStacks.length)
    (hroot : (GameTree.new e 0 deckSeed order startingStacks dealer none).2 = some t₀)
    {d : Decision startingStacks.length} (hd : t₀.decision? = some d) (handId : ℕ) :
    GameTree.DealsAt (renumbering startingStacks.length handId order)
        (2 * fundedSeats startingStacks + 5) t₀ ∧
      (GameTree.new e handId deckSeed order startingStacks dealer none).2 =
        some (t₀.reseat (renumbering startingStacks.length handId order)) := by
  exact (@deal_renumbering handId order startingStacks dealer hdealer).new_eq_of_decision hroot hd
    deckSeed

/-- On the way of a path the acting seats have chips. -/
theorem stack_pos_of_descends
    (hroot : (GameTree.new e 0 deckSeed order startingStacks dealer none).2 = some t₀)
    (hpath : Trace (Descends e) t₀ choices t) {d : Decision startingStacks.length}
    (hd : t.decision? = some d) : 0 < (d.state.players d.seat).stack := by
  have hinv := hpath.invariant (fun u => ∀ d, u.decision? = some d →
      Playing startingStacks.get (2 * fundedSeats startingStacks) u.deck d) ?_ (playing_new hroot)
  · exact (hinv d hd).stack_pos
  · intro u a u' hu hstep d' hd'
    obtain ⟨d₁, obs, hd₁, -, happly⟩ := descend_eq_some_iff.mp hstep
    exact playing_of_follows (hu d₁ hd₁) ((hu d₁ hd₁).follows hd₁ happly) hd'

/-- The seats of a numbered hand see what they see in the trainer's hand. -/
theorem seen_renumbering (hdealer : dealer < startingStacks.length)
    (hroot : (GameTree.new e 0 deckSeed order startingStacks dealer none).2 = some t₀)
    (answers : List Action) {p : Decision startingStacks.length × Observation}
    (hp : p ∈ promptsOf (t₀.play e answers).1) :
    p.2.reseat (renumbering startingStacks.length handId order) = p.2 := by
  have hprompts : promptsOf (runHand e 0 deckSeed order startingStacks dealer none answers).1 =
      promptsOf (t₀.play e answers).1 := by
    rw [promptsOf_runHand, GameTree.playHand, GameTree.playFrom, hroot]
    simp
  obtain ⟨d, obs⟩ := p
  rw [← hprompts] at hp
  obtain ⟨-, -, -, -, -, -, hobs⟩ := asked_of_prompt hp
  obtain ⟨hole, -, rfl⟩ := Option.map_eq_some_iff.mp hobs
  have hstate : d.state.dealer = dealer := by
    obtain ⟨output, houtput, hprompt⟩ := List.mem_filterMap.mp hp
    cases output with
    | event | notify => cases hprompt
    | prompt d' obs' =>
      obtain ⟨rfl, rfl⟩ := Prod.mk.inj (Option.some.inj hprompt)
      obtain ⟨events, hreached⟩ | hreport := (runHand_from order none answers).1 _ houtput
      · exact hreached.dealer_eq
      · obtain ⟨_, _, _, _, -, hevent⟩ := hreport
        cases hevent
  rw [Observation.reseat, ← publicPlayers_reseat]
  simp only [Observation.mk.injEq, true_and]
  refine ⟨rfl, Rotation.seat_val _ d.seat, ?_⟩
  rw [hstate]
  exact Rotation.refl_seat hdealer

/-- A numbered hand asks and reports what the stepper does on the trainer's tree. -/
theorem core_renumbering (hdealer : dealer < startingStacks.length)
    (hroot : (GameTree.new e 0 deckSeed order startingStacks dealer none).2 = some t₀)
    {d : Decision startingStacks.length} (hd : t₀.decision? = some d) (handId : ℕ)
    (answers : List Action) :
    ∃ setup later : List EngineEvent, (∀ event ∈ setup, event.action? = none) ∧
      (runHand e handId deckSeed order startingStacks dealer none answers).1.filter
          Output.isCore =
        setup.map .event ++ (t₀.play e answers).1.map
          (Output.reseat (renumbering startingStacks.length handId order)) ++ later.map .event ∧
      ((t₀.play e answers).2 = .waiting → later = []) := by
  obtain ⟨hdeals, hnew⟩ := new_renumbering hdealer hroot hd handId
  obtain ⟨setup, later, hsetup, -, hcore, hwaiting⟩ := core_runHand_of_new hnew answers
  rw [GameTree.play_reseat hdeals] at hcore hwaiting
  refine ⟨setup, later, hsetup, hcore, fun h => hwaiting ?_⟩
  rw [reseatRun, h]
  rfl

/-- The seats of a numbered hand are shown what the stepper shows on the trainer's tree. -/
theorem seen_runHand (hdealer : dealer < startingStacks.length)
    (hroot : (GameTree.new e 0 deckSeed order startingStacks dealer none).2 = some t₀)
    {d : Decision startingStacks.length} (hd : t₀.decision? = some d) (handId : ℕ)
    (answers : List Action) :
    (promptsOf (runHand e handId deckSeed order startingStacks dealer none answers).1).map
        Prod.snd =
      (promptsOf (t₀.play e answers).1).map Prod.snd := by
  obtain ⟨setup, later, -, hcore, -⟩ := core_renumbering hdealer hroot hd handId answers
  rw [← promptsOf_filter_isCore, hcore, promptsOf_append, promptsOf_append, promptsOf_events,
    promptsOf_events, List.nil_append, List.append_nil, promptsOf_reseat, List.map_map]
  exact List.map_congr_left fun p hp => seen_renumbering hdealer hroot answers hp

/-- What a numbered hand has made and reported when a path comes to its last tree. -/
theorem asked_of_path (hdealer : dealer < startingStacks.length)
    (hroot : (GameTree.new e 0 deckSeed order startingStacks dealer none).2 = some t₀)
    (hpath : Trace (Descends e) t₀ choices t) {obs : Observation}
    (hobs : t.observationOwned e = some obs) (handId : ℕ) :
    ∃ asked d, (runHand e handId deckSeed order startingStacks dealer none
        (concretes e t₀ choices)).1.filter Output.isCore = asked ++ [.prompt d obs] ∧
      (promptsOf asked).length = choices.length ∧
      choices.zipWith concretize ((promptsOf asked).map Prod.snd) = concretes e t₀ choices ∧
      (actionNames (reportedActions asked) = choices ↔ Trace (DescendsKept e) t₀ choices t) := by
  obtain ⟨d, hd, hseen⟩ := observationOwned_eq_some_iff.mp hobs
  obtain ⟨d₀, hd₀⟩ := decision_of_descends hpath hd
  obtain ⟨before, hplay, hlength, hzip, hnames⟩ := play_concretes hpath
    (fun used u d htrace hd => stack_pos_of_descends hroot htrace hd) hd hseen
  obtain ⟨setup, later, hsetup, hcore, hwaiting⟩ :=
    core_renumbering hdealer hroot hd₀ handId (concretes e t₀ choices)
  have hsame : ∀ p ∈ promptsOf (before ++ [.prompt d obs]),
      p.2.reseat (renumbering startingStacks.length handId order) = p.2 := fun p hp =>
    seen_renumbering hdealer hroot (concretes e t₀ choices) (by rwa [hplay])
  -- the renumbered seats are shown what the original ones are
  have hshown : (promptsOf (setup.map Output.event ++ before.map
      (Output.reseat (renumbering startingStacks.length handId order)))).map Prod.snd =
      (promptsOf before).map Prod.snd := by
    rw [promptsOf_append, promptsOf_events, List.nil_append, promptsOf_reseat, List.map_map]
    exact List.map_congr_left fun p hp => hsame p (by simp [hp])
  refine ⟨setup.map .event ++ before.map
    (Output.reseat (renumbering startingStacks.length handId order)),
    d.reseat (renumbering startingStacks.length handId order), ?_, ?_, ?_, ?_⟩
  · have hobs' := hsame (d, obs) (by simp)
    rw [hcore, hwaiting (by rw [hplay]), hplay, List.map_append]
    simp [Output.reseat, hobs']
  · rw [← hlength, ← List.length_map Prod.snd, hshown, List.length_map]
  · rw [hshown, hzip]
  · rw [← hnames, reportedActions_append, reportedActions_events hsetup, List.nil_append,
      reportedActions_reseat, actionNames, actionNames, List.map_map]
    rfl

/-! ## The keys of a path -/

/-- A path of the traversal leads to the same observation in a numbered hand. -/
theorem exists_askedAfter (hdealer : dealer < startingStacks.length)
    (hroot : (GameTree.new e 0 deckSeed order startingStacks dealer none).2 = some t₀)
    (hpath : Trace (Descends e) t₀ choices t) {obs : Observation}
    (hobs : t.observationOwned e = some obs) (handId : ℕ) :
    ∃ before, AskedAfter (runHand e handId deckSeed order startingStacks dealer none) choices
      before obs := by
  obtain ⟨asked, d, hlast, hlength, hzip, -⟩ := asked_of_path hdealer hroot hpath hobs handId
  obtain ⟨before, after, hrun, hfilter⟩ := exists_before_prompt hlast
  refine ⟨before, ?_, d, after, ?_⟩
  · rw [← promptsOf_filter_isCore, hfilter, hlength]
  · rw [← promptsOf_filter_isCore before, hfilter, hzip, hrun]

/-- Where a path of the traversal leads in a numbered hand, an adapter looks up under the key of
the traversal exactly when all choices of the path survive. -/
theorem infoSet_eq_iff (hdealer : dealer < startingStacks.length)
    (hroot : (GameTree.new e 0 deckSeed order startingStacks dealer none).2 = some t₀)
    (hpath : Trace (Descends e) t₀ choices t) {obs : Observation}
    (hobs : t.observationOwned e = some obs) {handId : ℕ}
    {before : List (Output startingStacks.length)} {obs' : Observation}
    (hasked : AskedAfter (runHand e handId deckSeed order startingStacks dealer none) choices
      before obs') (adapter : StrategyAdapter) :
    (adapter.after before).infoSet obs' = .fromObservation obs choices ↔
      Trace (DescendsKept e) t₀ choices t := by
  obtain ⟨d, hd, -⟩ := observationOwned_eq_some_iff.mp hobs
  obtain ⟨d₀, hd₀⟩ := decision_of_descends hpath hd
  obtain ⟨asked, d, hlast, hlength, -, hnames⟩ := asked_of_path hdealer hroot hpath hobs handId
  obtain ⟨hcount, d', after, hrun⟩ := hasked
  -- the answers are those of the path, so that the hand is the one of its last prompt
  have hshown : (promptsOf (t₀.play e (choices.zipWith concretize
      ((promptsOf before).map Prod.snd))).1).map Prod.snd =
      (promptsOf before).map Prod.snd ++ obs' :: (promptsOf after).map Prod.snd := by
    rw [← seen_runHand hdealer hroot hd₀ handId, hrun]
    simp
  rw [eq_concretes hshown (by rw [List.length_map, hcount]) rfl] at hrun
  obtain ⟨hfilter, rfl⟩ := prompt_eq_last hlast hrun (hcount.trans hlength.symm)
  have hheard : actionNames (heardActions before) = actionNames (reportedActions asked) := by
    rw [(runHand_keepsUp _ _ _ _ _ _ _).asked before d' obs' after hrun, ← reportedActions_core,
      hfilter]
  rw [← hnames, ← hheard, StrategyAdapter.infoSet, StrategyAdapter.after_history]
  simp [InfoSet.fromObservation]

/-- Wherever a path of the traversal leads in a hand of the engine, the adapters look up under
the key of the traversal. -/
def StoredAsLookedUp (e : Engine) (handId deckSeed : ℕ) (order : Fin 52 → Card)
    (startingStacks : List ℕ) (dealer : ℕ) (choices : List AbstractAction) (obs : Observation) :
    Prop :=
  (∃ before, AskedAfter (runHand e handId deckSeed order startingStacks dealer none) choices
    before obs) ∧
  ∀ before obs', AskedAfter (runHand e handId deckSeed order startingStacks dealer none) choices
      before obs' →
    ∀ adapter : StrategyAdapter, (adapter.after before).infoSet obs' =
      .fromObservation obs choices

end Hand

/-! ## Two raises of the size of the pot -/

/-- A step of a path by an action that the traversal enumerates. -/
def Enumerates (e : Engine) (t : GameTree n) (a : AbstractAction) (t' : GameTree n) : Prop :=
  Descends e t a t' ∧ ∃ obs, t.observationOwned e = some obs ∧
    a ∈ legalAbstractActions obs.legalActions

/-- No-limit with blinds of one and two. -/
def smallGame : Engine := ⟨.noLimitHoldem 1 2, ⟨fun _ => 0⟩⟩

/-- A first choice of a heads-up hand that leads to a decision, after an observation that
satisfies `P`. -/
theorem exists_first_step {stack : ℕ} {a : AbstractAction} {P : Observation → Prop}
    [DecidablePred P]
    (h : ((GameTree.new smallGame 0 0 Card.mk [stack, stack] 0 none).2.bind fun t₀ =>
      (t₀.observationOwned smallGame).bind fun obs₀ => (descend smallGame t₀ a).bind fun t =>
        (t.observationOwned smallGame).map fun _ => decide (P obs₀)) = some true) :
    ∃ (t₀ t : GameTree [stack, stack].length) (obs₀ obs : Observation),
      (GameTree.new smallGame 0 0 Card.mk [stack, stack] 0 none).2 = some t₀ ∧
        t₀.observationOwned smallGame = some obs₀ ∧ Descends smallGame t₀ a t ∧
          t.observationOwned smallGame = some obs ∧ P obs₀ := by
  obtain ⟨t₀, hroot, h⟩ := Option.bind_eq_some_iff.mp h
  obtain ⟨obs₀, hobs₀, h⟩ := Option.bind_eq_some_iff.mp h
  obtain ⟨t, hstep, h⟩ := Option.bind_eq_some_iff.mp h
  obtain ⟨obs, hobs, h⟩ := Option.map_eq_some_iff.mp h
  exact ⟨t₀, t, obs₀, obs, hroot, hobs₀, hstep, hobs, of_decide_eq_true h⟩

end VibePoker.Trainer
