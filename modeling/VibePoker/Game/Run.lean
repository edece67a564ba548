import VibePoker.CS.Trace
import VibePoker.Game.Tree

/-!
# Runs of the stepper

The stepper is a transition system labelled by answers. `play` follows one of
its traces until the hand is over, and says at which tree it stopped.

## Main definitions

* `answered` — the prompts of a run, each with the answer it got
* `GameTree.Step` — one answer, at a decision that satisfies a given condition

## Main results

* `play_trace` — a run is a trace, and how it came out is read off its last tree
* `recall_of_play` — each prompt is the decision of a tree on the way, with the prompts
  before it as the decisions taken so far
-/

namespace VibePoker.Game

open VibePoker.CS

variable {n : ℕ} {e : Engine}

/-- The prompt an output makes. -/
def Output.prompt? : Output n → Option (Decision n × Observation)
  | .prompt d obs => some (d, obs)
  | _ => none

/-- The prompts of a run, in order. -/
def promptsOf (outputs : List (Output n)) : List (Decision n × Observation) :=
  outputs.filterMap Output.prompt?

/-- The prompts of a run in order, each with the answer given to it. -/
def answered (outputs : List (Output n)) (answers : List Action) : List (Decision n × Action) :=
  ((promptsOf outputs).map Prod.fst).zip answers

@[simp] theorem promptsOf_nil : promptsOf ([] : List (Output n)) = [] := rfl

@[simp] theorem promptsOf_cons_event (event : EngineEvent) (outputs : List (Output n)) :
    promptsOf (.event event :: outputs) = promptsOf outputs := rfl

@[simp] theorem promptsOf_cons_notify (event : EngineEvent) (outputs : List (Output n)) :
    promptsOf (.notify event :: outputs) = promptsOf outputs := rfl

@[simp] theorem promptsOf_cons_prompt (d : Decision n) (obs : Observation)
    (outputs : List (Output n)) :
    promptsOf (.prompt d obs :: outputs) = (d, obs) :: promptsOf outputs := rfl

@[simp] theorem promptsOf_append (outputs later : List (Output n)) :
    promptsOf (outputs ++ later) = promptsOf outputs ++ promptsOf later :=
  List.filterMap_append

@[simp] theorem promptsOf_events (events : List EngineEvent) :
    promptsOf (events.map Output.event : List (Output n)) = [] := by
  induction events with
  | nil => rfl
  | cons event events ih => simpa using ih

/-- The first prompt gets the first answer. -/
theorem answered_cons_prompt (d : Decision n) (obs : Observation) (events : List EngineEvent)
    (outputs : List (Output n)) (action : Action) (answers : List Action) :
    answered (.prompt d obs :: (events.map .event ++ outputs)) (action :: answers) =
      (d, action) :: answered outputs answers := by
  simp [answered]

/-- Every answer is one that was offered. -/
def Decision.legal (e : Engine) (d : Decision n) (action : Action) : Prop :=
  (e.computeLegalActions d.state d.seat (!d.hasResponded d.seat)).isLegal action

namespace GameTree

/-- The decision a tree is at. -/
def decision? (t : GameTree n) : Option (Decision n) :=
  match t.phase with
  | .decision seat hasResponded => some ⟨t.state, hasResponded, seat⟩
  | .terminal _ => none

/-- One answer to a decision that satisfies `ok`. -/
def Step (e : Engine) (ok : Decision n → Action → Prop) (t : GameTree n) (action : Action)
    (t' : GameTree n) : Prop :=
  ∃ d, t.decision? = some d ∧ ok d action ∧ (t.applyAction e action).2 = some t'

/-- One answer, with the list of the decisions taken so far. -/
def Recalls (e : Engine) (ok : Decision n → Action → Prop) (p : GameTree n × List (Decision n))
    (action : Action) (p' : GameTree n × List (Decision n)) : Prop :=
  ∃ d, p.1.decision? = some d ∧ ok d action ∧ (p.1.applyAction e action).2 = some p'.1 ∧
    p'.2 = p.2 ++ [d]

/-- The tree cannot go on: its seat has no cards to look at, or the next answer
panics. -/
def Stuck (e : Engine) (ok : Decision n → Action → Prop) (t : GameTree n)
    (answers : List Action) : Prop :=
  ∃ d, t.decision? = some d ∧
    (d.observation e = none ∨
      ∃ action rest, answers = action :: rest ∧ ok d action ∧ (t.applyAction e action).2 = none)

/-- How a run that stopped at tree `t` with `rest` still unused comes out. -/
inductive Ends (e : Engine) (ok : Decision n → Action → Prop) (t : GameTree n)
    (rest : List Action) : HandOutcome n → Prop
  | finished (chipDeltas : Fin n → ℤ) (hphase : t.phase = .terminal chipDeltas) :
      Ends e ok t rest (settle t.state chipDeltas rest)
  | waiting (d : Decision n) (hdecision : t.decision? = some d) (hrest : rest = []) :
      Ends e ok t rest .waiting
  | panicked (hstuck : t.Stuck e ok rest) : Ends e ok t rest .panicked

/-! ### What `play` does at each kind of tree -/

theorem decision?_eq_some_iff {t : GameTree n} {d : Decision n} :
    t.decision? = some d ↔ t.phase = .decision d.seat d.hasResponded ∧ t.state = d.state := by
  unfold decision?
  cases t.phase with
  | terminal chipDeltas => simp
  | decision seat hasResponded =>
    obtain ⟨state, hasResponded', seat'⟩ := d
    simp only [Option.some.injEq, Decision.mk.injEq, Phase.decision.injEq]
    tauto

theorem decision?_eq_none_iff {t : GameTree n} :
    t.decision? = none ↔ ∃ chipDeltas, t.phase = .terminal chipDeltas := by
  unfold decision?
  cases t.phase <;> simp

/-- A run that finished stopped at a terminal node. -/
theorem Ends.terminal {ok : Decision n → Action → Prop} {t : GameTree n}
    {rest rest' : List Action} {result : HandResult} {players : Fin n → PlayerState}
    {chipDeltas : Fin n → ℤ}
    (h : Ends e ok t rest (.finished result players chipDeltas rest')) :
    t.phase = .terminal chipDeltas ∧ players = t.state.players ∧ rest' = rest ∧
      result = buildResult t.state.handId t.state chipDeltas := by
  generalize hout : HandOutcome.finished result players chipDeltas rest' = out at h
  cases h with
  | finished chipDeltas' hphase =>
    rw [settle, HandOutcome.finished.injEq] at hout
    obtain ⟨rfl, rfl, rfl, rfl⟩ := hout
    exact ⟨hphase, rfl, rfl, rfl⟩
  | waiting => simp at hout
  | panicked => simp at hout

theorem observationOwned_of_decision {t : GameTree n} {d : Decision n}
    (h : t.decision? = some d) : t.observationOwned e = d.observation e := by
  obtain ⟨hphase, hstate⟩ := decision?_eq_some_iff.mp h
  simp only [observationOwned, hphase, hstate, Decision.observation]
  cases (d.state.players d.seat).holeCards <;> rfl

theorem play_of_terminal {t : GameTree n} {chipDeltas : Fin n → ℤ}
    (h : t.phase = .terminal chipDeltas) (answers : List Action) :
    t.play e answers = ([], settle t.state chipDeltas answers) := by
  cases answers <;> rw [play, h]

theorem play_of_blind {t : GameTree n} {d : Decision n} (h : t.decision? = some d)
    (hblind : d.observation e = none) (answers : List Action) :
    t.play e answers = ([], .panicked) := by
  have hobs := observationOwned_of_decision (e := e) h
  obtain ⟨hphase, -⟩ := decision?_eq_some_iff.mp h
  cases answers <;> simp only [play, hphase, hobs, hblind]

theorem play_nil {t : GameTree n} {d : Decision n} {obs : Observation} (h : t.decision? = some d)
    (hobs : d.observation e = some obs) : t.play e [] = ([.prompt d obs], .waiting) := by
  have hobs' := observationOwned_of_decision (e := e) h
  obtain ⟨hphase, hstate⟩ := decision?_eq_some_iff.mp h
  simp only [play, hphase, hobs', hobs, hstate]

theorem play_cons {t : GameTree n} {d : Decision n} {obs : Observation} (h : t.decision? = some d)
    (hobs : d.observation e = some obs) (action : Action) (answers : List Action) :
    t.play e (action :: answers) =
      (.prompt d obs :: (playFrom e (t.applyAction e action) answers).1,
        (playFrom e (t.applyAction e action) answers).2) := by
  have hobs' := observationOwned_of_decision (e := e) h
  obtain ⟨hphase, hstate⟩ := decision?_eq_some_iff.mp h
  rw [play, playFrom]
  simp only [hphase, hobs', hobs, hstate]
  rcases t.applyAction e action with ⟨events, _ | t'⟩ <;> rfl

/-- Induction on a stepped hand. It is over, the acting seat holds no cards, the answers are
used up, or the first of them is applied. -/
@[elab_as_elim]
theorem play_induction {motive : GameTree n → List Action → Prop} (e : Engine)
    (terminal : ∀ t answers chipDeltas, t.phase = .terminal chipDeltas → motive t answers)
    (blind : ∀ t answers d, t.decision? = some d → d.observation e = none → motive t answers)
    (waiting : ∀ t d obs, t.decision? = some d → d.observation e = some obs → motive t [])
    (answer : ∀ t action answers d obs, t.decision? = some d → d.observation e = some obs →
      (∀ t', (t.applyAction e action).2 = some t' → motive t' answers) →
        motive t (action :: answers))
    (t : GameTree n) (answers : List Action) : motive t answers := by
  induction answers generalizing t with
  | nil =>
    cases hdecision : t.decision? with
    | none =>
      obtain ⟨chipDeltas, hphase⟩ := decision?_eq_none_iff.mp hdecision
      exact terminal t [] chipDeltas hphase
    | some d =>
      cases hobs : d.observation e with
      | none => exact blind t [] d hdecision hobs
      | some obs => exact waiting t d obs hdecision hobs
  | cons action answers ih =>
    cases hdecision : t.decision? with
    | none =>
      obtain ⟨chipDeltas, hphase⟩ := decision?_eq_none_iff.mp hdecision
      exact terminal t _ chipDeltas hphase
    | some d =>
      cases hobs : d.observation e with
      | none => exact blind t _ d hdecision hobs
      | some obs => exact answer t action answers d obs hdecision hobs fun t' _ => ih t'

/-! ### Runs are traces -/

variable {ok : Decision n → Action → Prop}

/-- A run is a trace, and how it came out is read off the tree it stopped at. -/
theorem play_trace (ok : Decision n → Action → Prop) (t : GameTree n) (answers : List Action)
    (hok : ∀ p ∈ answered (t.play e answers).1 answers, ok p.1 p.2) :
    ∃ used rest t', answers = used ++ rest ∧ Trace (Step e ok) t used t' ∧
      Ends e ok t' rest (t.play e answers).2 := by
  induction t, answers using play_induction e with
  | terminal t answers chipDeltas hphase =>
    rw [play_of_terminal hphase]
    exact ⟨[], answers, t, rfl, .nil t, .finished chipDeltas hphase⟩
  | blind t answers d hdecision hobs =>
    rw [play_of_blind hdecision hobs]
    exact ⟨[], answers, t, rfl, .nil t, .panicked ⟨d, hdecision, Or.inl hobs⟩⟩
  | waiting t d obs hdecision hobs =>
    rw [play_nil hdecision hobs]
    exact ⟨[], [], t, rfl, .nil t, .waiting d hdecision rfl⟩
  | answer t action answers d obs hdecision hobs ih =>
    rw [play_cons hdecision hobs] at hok ⊢
    have hhead : ok d action := hok (d, action) (by simp [answered])
    cases hstep : (t.applyAction e action).2 with
    | none =>
      refine ⟨[], _, t, rfl, .nil t, ?_⟩
      simp only [playFrom, hstep]
      exact .panicked ⟨d, hdecision, Or.inr ⟨action, answers, rfl, hhead, hstep⟩⟩
    | some t₁ =>
      simp only [playFrom, hstep] at hok ⊢
      rw [answered_cons_prompt] at hok
      obtain ⟨used, rest, t', rfl, htrace, hends⟩ := ih t₁ hstep fun p hp =>
        hok p (List.mem_cons_of_mem _ hp)
      exact ⟨action :: used, rest, t', rfl, .cons ⟨d, hdecision, hhead, hstep⟩ htrace, hends⟩

/-- A run that ends with certain decisions taken only takes those. -/
theorem Recalls.trace {p p' : GameTree n × List (Decision n)} {used : List Action}
    (h : Trace (Recalls e ok) p used p') :
    p.2 ⊆ p'.2 ∧ Trace (Step e fun d a => ok d a ∧ d ∈ p'.2) p.1 used p'.1 := by
  induction h with
  | nil p => exact ⟨fun _ hd => hd, .nil p.1⟩
  | cons head tail ih =>
    obtain ⟨d, hd, hok, hstep, hpast⟩ := head
    obtain ⟨hsub, htrace⟩ := ih
    rw [hpast] at hsub
    exact ⟨fun d' hd' => hsub (List.mem_append_left _ hd'),
      .cons ⟨d, hd, ⟨hok, hsub (by simp)⟩, hstep⟩ htrace⟩

/-- A prompt is the decision of a tree on the way, and the prompts before it are
the decisions taken so far. -/
theorem recall_of_play {t : GameTree n} {past : List (Decision n)} {answers : List Action}
    {before after : List (Decision n × Observation)} {d : Decision n} {obs : Observation}
    (hprompts : promptsOf (t.play e answers).1 = before ++ (d, obs) :: after)
    (hok : ∀ p ∈ answered (t.play e answers).1 answers, ok p.1 p.2) :
    ∃ used rest t', answers = used ++ rest ∧
      Trace (Recalls e ok) (t, past) used (t', past ++ before.map Prod.fst) ∧
      t'.decision? = some d ∧ d.observation e = some obs := by
  induction t, answers using play_induction e generalizing past before with
  | terminal t answers chipDeltas hphase => simp [play_of_terminal hphase] at hprompts
  | blind t answers d₀ hdecision hobs => simp [play_of_blind hdecision hobs] at hprompts
  | waiting t d₀ obs₀ hdecision hobs =>
    rw [play_nil hdecision hobs] at hprompts
    cases before with
    | nil =>
      obtain ⟨⟨rfl, rfl⟩, rfl⟩ : (d₀ = d ∧ obs₀ = obs) ∧ after = [] := by
        simpa [eq_comm] using hprompts
      refine ⟨[], [], t, rfl, ?_, hdecision, hobs⟩
      rw [List.map_nil, List.append_nil]
      exact .nil _
    | cons head before => simp at hprompts
  | answer t action answers d₀ obs₀ hdecision hobs ih =>
    rw [play_cons hdecision hobs] at hprompts hok
    cases before with
    | nil =>
      obtain ⟨⟨rfl, rfl⟩, -⟩ := by simpa using hprompts
      refine ⟨[], action :: answers, t, rfl, ?_, hdecision, hobs⟩
      rw [List.map_nil, List.append_nil]
      exact .nil _
    | cons head before =>
      have hhead : ok d₀ action := hok (d₀, action) (by simp [answered])
      cases hstep : (t.applyAction e action).2 with
      | none => simp [playFrom, hstep] at hprompts
      | some t₁ =>
        simp only [playFrom, hstep, promptsOf_cons_prompt, promptsOf_append, promptsOf_events,
          List.nil_append, List.cons_append, List.cons.injEq] at hprompts
        obtain ⟨rfl, hprompts⟩ := hprompts
        simp only [playFrom, hstep] at hok
        rw [answered_cons_prompt] at hok
        -- the rest is reached with this decision recalled
        obtain ⟨used, rest, t', rfl, htrace, hd⟩ := @ih t₁ hstep (past ++ [d₀]) before hprompts
          fun p hp => hok p (List.mem_cons_of_mem _ hp)
        rw [List.append_assoc, List.singleton_append] at htrace
        refine ⟨action :: used, rest, t', rfl, ?_, hd⟩
        exact .cons ⟨d₀, hdecision, hhead, hstep, rfl⟩ htrace

end GameTree

end VibePoker.Game
