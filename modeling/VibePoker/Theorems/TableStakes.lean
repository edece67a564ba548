import Mathlib.Order.Lattice.Nat
import VibePoker.Game.Cover
import VibePoker.Game.Prompts
import VibePoker.Game.Slices

/-!
# Table stakes

A seat can win from each other seat at most what it has put in itself, and gets back
what nobody has matched. The pots keep to this while every folded seat is matched by a
contender. A seat that folds chips which no contender has matched leaves them to a seat
that put in less.

## Main definitions

* `TableStakes` — the bounds for the reported deltas
* `MatchedFold` — a fold whose chips a contender has matched

## Main results

* `table_stakes` — hands without other folds keep to the bounds
* `table_stakes_broken` — a hand with one that does not
-/

namespace VibePoker.Game

open VibePoker.Core VibePoker.CS VibePoker.Math

variable {n : ℕ} {e : Engine}

/-- The most that another seat has committed. -/
def committedByOthers (players : Fin n → PlayerState) (i : Fin n) : ℕ :=
  (Finset.univ.erase i).sup fun j => (players j).totalCommitted

/-- In a finished hand, no seat wins more from another than it has put in itself, and a
seat that did not fold loses no more than another has matched. -/
def TableStakes (outcome : HandOutcome n) : Prop :=
  ∀ result players chipDeltas rest, outcome = .finished result players chipDeltas rest →
    ∀ o ∈ result.seats, ∃ i, o.seat = i.val ∧
      o.chipDelta ≤ ∑ j ∈ Finset.univ.erase i,
        min ((players j).totalCommitted : ℤ) (players i).totalCommitted ∧
      ((players i).status ≠ .folded →
        -min ((players i).totalCommitted : ℤ) (committedByOthers players i) ≤ o.chipDelta)

/-- The answer folds only chips that another contender has matched. -/
def MatchedFold (d : Decision n) (action : Action) : Prop :=
  action = .fold → ∃ k, k ≠ d.seat ∧ (d.state.players k).stillIn ∧
    (d.state.players d.seat).totalCommitted ≤ (d.state.players k).totalCommitted

/-! ## Awards within the stakes -/

/-- Awards with which each seat stays within the stakes. -/
structure WithinStakes (players : Fin n → PlayerState) (chipDeltas : Fin n → ℤ) : Prop where
  wins_le : ∀ i, chipDeltas i ≤
    ∑ j, min ((players j).totalCommitted : ℤ) (players i).totalCommitted
  loses_le : ∀ i, (players i).status ≠ .folded →
    (players i).totalCommitted ≤
      chipDeltas i + min ((players i).totalCommitted : ℤ) (committedByOthers players i)

theorem le_committedByOthers {players : Fin n → PlayerState} {i j : Fin n} (h : j ≠ i) :
    (players j).totalCommitted ≤ committedByOthers players i :=
  Finset.le_sup (f := fun j => (players j).totalCommitted)
    (Finset.mem_erase.mpr ⟨h, Finset.mem_univ j⟩)

/-- What the others have matched is nothing, or the commitment of one of them. -/
theorem committedByOthers_eq (players : Fin n → PlayerState) (i : Fin n) :
    committedByOthers players i = 0 ∨
      ∃ j, (players j).totalCommitted = committedByOthers players i := by
  rcases (Finset.univ.erase i).eq_empty_or_nonempty with hempty | hother
  · left
    rw [committedByOthers, hempty, Finset.sup_empty]
    rfl
  · obtain ⟨j, -, hj⟩ := Finset.exists_mem_eq_sup _ hother fun j => (players j).totalCommitted
    exact Or.inr ⟨j, hj.symm⟩

/-- A matched showdown pays within the stakes. -/
theorem withinStakes_of_slices {board : List Card} {players : Fin n → PlayerState}
    {awards : List (Fin n → ℤ)} {chipDeltas : Fin n → ℤ}
    (hpays : List.Forall₂ (PaysPot e board players)
      (slices players 0 (commitmentLevels players)) awards)
    (hsum : ∀ i, chipDeltas i = (awards.map fun award => award i).sum) :
    WithinStakes players chipDeltas := by
  refine ⟨fun i => ?_, fun i _ => ?_⟩
  · have hle := awards_le i hpays
    rw [sum_layers_min (Or.inr ⟨i, rfl⟩)] at hle
    rw [hsum i]
    exact_mod_cast hle
  · have hle := @le_awards _ _ _ _ _ _ _ i _ (fun j hj => le_committedByOthers hj) hpays
    rw [sum_layers_committed, sum_layers_min (committedByOthers_eq players i), ← hsum i] at hle
    -- the others have committed no more than what is matched
    have hothers : ∑ j ∈ Finset.univ.erase i,
        min (players j).totalCommitted (committedByOthers players i) =
          ∑ j ∈ Finset.univ.erase i, (players j).totalCommitted :=
      Finset.sum_congr rfl fun j hj =>
        min_eq_left (le_committedByOthers (Finset.ne_of_mem_erase hj))
    rw [← Finset.add_sum_erase _ _ (Finset.mem_univ i),
      ← Finset.add_sum_erase _ _ (Finset.mem_univ i), hothers] at hle
    push_cast at hle
    omega

/-- A seat that has matched everybody takes the whole pot within the stakes. -/
theorem withinStakes_of_winner {players : Fin n → PlayerState} {winner : Fin n}
    (h : ∀ j, (players j).totalCommitted ≤ (players winner).totalCommitted) :
    WithinStakes players fun i =>
      if i = winner then ∑ j, ((players j).totalCommitted : ℤ) else 0 := by
  refine ⟨fun i => ?_, fun i _ => ?_⟩
  · by_cases hi : i = winner
    · subst hi
      rw [if_pos rfl]
      refine Finset.sum_le_sum fun j _ => ?_
      have := h j
      omega
    · rw [if_neg hi]
      exact Finset.sum_nonneg fun j _ => by omega
  · by_cases hi : i = winner
    · subst hi
      rw [if_pos rfl]
      have := Finset.single_le_sum (f := fun j => ((players j).totalCommitted : ℤ))
        (fun j _ => Int.natCast_nonneg _) (Finset.mem_univ i)
      omega
    · rw [if_neg hi]
      have := h i
      have hle : (players winner).totalCommitted ≤ committedByOthers players i :=
        le_committedByOthers (Ne.symm hi)
      omega

/-- The reported deltas are within the stakes if the awards are. -/
theorem tableStakes_of_withinStakes {start : Fin n → ℕ} {s : GameState n}
    {chipDeltas : Fin n → ℤ} (h : Settlement start s chipDeltas) (hpays : PaysOut s chipDeltas)
    (hfits : ∀ i, ∑ j ∈ Finset.univ.erase i, start j < 2 ^ 31)
    (hwithin : WithinStakes s.players chipDeltas) (handId : ℕ) (rest : List Action) :
    TableStakes (.finished (buildResult handId s chipDeltas) s.players chipDeltas rest) := by
  intro result players chipDeltas' rest' heq o ho
  rw [HandOutcome.finished.injEq] at heq
  obtain ⟨rfl, rfl, rfl, rfl⟩ := heq
  obtain ⟨i, -, rfl⟩ := List.mem_map.mp ho
  have hdelta := h.chipDelta_eq hpays hfits i
  rw [h.stack_eq i] at hdelta
  refine ⟨i, rfl, ?_, fun hunfolded => ?_⟩
  · have hwins := hwithin.wins_le i
    rw [← Finset.add_sum_erase _ _ (Finset.mem_univ i), min_self] at hwins
    omega
  · have hloses := hwithin.loses_le i hunfolded
    omega

/-! ## Matched folds -/

theorem Matched.paysOut_cond {players : Fin n → PlayerState} (h : Matched players) :
    (∃ i, (players i).status ≠ .folded ∧ 0 < (players i).totalCommitted) ∨
      ∀ i, (players i).totalCommitted = 0 := by
  by_contra hlost
  push Not at hlost
  obtain ⟨hnone, i, hi⟩ := hlost
  by_cases hfolded : (players i).status = .folded
  · obtain ⟨k, hin, hle⟩ := h i hfolded
    have := hnone k (stillIn_ne_folded hin)
    omega
  · have := hnone i hfolded
    omega

/-- An answer that folds only matched chips keeps the folded seats matched. -/
theorem Matched.acted {start : Fin n → ℕ} {dealt : ℕ} {deck : Deck} {d : Decision n}
    {action : Action} (h : Matched d.state.players) (hplay : Playing start dealt deck d)
    (hfold : MatchedFold d action) : Matched (d.acted action).players := by
  have hacted := hplay.actedBy action
  intro j hj
  by_cases haction : action = .fold
  · -- a seat that the folding seat matched is matched by the seat that matches it
    obtain ⟨k, hk, hkin, hkle⟩ := hfold haction
    have hkin' : ((d.acted action).players k).stillIn := by rwa [hacted.others k hk]
    have hkeep : ((d.acted action).players d.seat).totalCommitted =
        (d.state.players d.seat).totalCommitted := by
      rw [haction, acted_fold, setPlayer_self]
    by_cases hseat : j = d.seat
    · refine ⟨k, hkin', ?_⟩
      rw [hseat, hkeep, hacted.others k hk]
      exact hkle
    · rw [hacted.others j hseat] at hj ⊢
      obtain ⟨l, hlin, hlle⟩ := h j hj
      by_cases hl : l = d.seat
      · refine ⟨k, hkin', ?_⟩
        rw [hacted.others k hk]
        exact hlle.trans (hl ▸ hkle)
      · exact ⟨l, by rwa [hacted.others l hl], by rwa [hacted.others l hl]⟩
  · have hin := acted_stillIn_of_ne_fold hplay.active haction
    have hseat : j ≠ d.seat := by
      rintro rfl
      exact stillIn_ne_folded hin hj
    rw [hacted.others j hseat] at hj ⊢
    obtain ⟨l, hlin, hlle⟩ := h j hj
    refine ⟨l, ?_, hlle.trans (hacted.committed_le l)⟩
    by_cases hl : l = d.seat
    · exact hl ▸ hin
    · rwa [hacted.others l hl]

/-- A lone contender has matched every folded seat. -/
theorem Matched.le_winner {start : Fin n → ℕ} {s : GameState n} {winner : Fin n}
    (h : Matched s.players) (hledger : Ledger start s) (hone : s.playersStillIn = 1)
    (hin : (s.players winner).stillIn) (j : Fin n) :
    (s.players j).totalCommitted ≤ (s.players winner).totalCommitted := by
  have hwinner : ∀ k, (s.players k).stillIn → k = winner := by
    intro k hk
    rw [GameState.playersStillIn] at hone
    exact Finset.card_le_one.mp hone.le k (by simpa using hk) winner (by simpa using hin)
  cases hstatus : (s.players j).status with
  | active => rw [hwinner j (by simp [PlayerState.stillIn, hstatus])]
  | allIn => rw [hwinner j (by simp [PlayerState.stillIn, hstatus])]
  | folded =>
    obtain ⟨k, hk, hle⟩ := h j hstatus
    rwa [hwinner k hk] at hle
  | out =>
    rw [(hledger.seat j).committed_eq_zero hstatus]
    exact Nat.zero_le _

/-! ## Along a run -/

/-- What holds at every tree of a hand in which no unmatched chips are folded. -/
structure Staked (start : Fin n → ℕ) (dealt : ℕ) (t : GameTree n) : Prop where
  playing : ∀ d, t.decision? = some d → Playing start dealt t.deck d
  isMatched : ∀ d, t.decision? = some d → Matched d.state.players
  settled : ∀ chipDeltas, t.phase = .terminal chipDeltas →
    Settlement start t.state chipDeltas ∧ PaysOut t.state chipDeltas ∧
      WithinStakes t.state.players chipDeltas

/-- Paying a seat that has matched everybody keeps to the stakes. -/
theorem staked_uncontested {start : Fin n → ℕ} {dealt : ℕ} {s : GameState n} {winner : Fin n}
    (h : Ledger start s) (hin : (s.players winner).stillIn)
    (hle : ∀ j, (s.players j).totalCommitted ≤ (s.players winner).totalCommitted)
    (deck : Deck) : Staked start dealt (GameTree.uncontested s deck winner) := by
  refine ⟨by simp, by simp, fun chipDeltas hphase => ?_⟩
  obtain rfl : (Engine.awardUncontested s winner).2 = chipDeltas := by
    simpa [GameTree.uncontested] using hphase
  obtain ⟨hsettled, hpays⟩ := uncontested_settled h hin deck
  refine ⟨hsettled, hpays, ?_⟩
  have hcommitted : ∀ i, ((GameTree.uncontested s deck winner).state.players i).totalCommitted =
      (s.players i).totalCommitted := by
    intro i
    simp only [GameTree.uncontested, Engine.awardUncontested, GameState.setActionOn_players]
    split <;> rfl
  have hwithin := @withinStakes_of_winner _ (GameTree.uncontested s deck winner).state.players
    winner fun j => by rw [hcommitted, hcommitted]; exact hle j
  have htotal : (collectStreetBets s).pot.total = ∑ i, (s.players i).totalCommitted := by
    rw [← h.potTotal_eq]
    simp only [collectStreetBets, Pot.total]
    omega
  convert hwithin using 2
  rename_i i
  simp only [Engine.awardUncontested, htotal, hcommitted]
  push_cast
  rfl

/-- Answers that fold matched chips only keep a hand to the stakes. -/
theorem Staked.step {start : Fin n → ℕ} {dealt : ℕ} {t t' : GameTree n} {d : Decision n}
    {action : Action} (h : Staked start dealt t) (hd : t.decision? = some d)
    (hfold : MatchedFold d action) (hstep : (t.applyAction e action).2 = some t') :
    Staked start dealt t' := by
  have hplay := h.playing d hd
  have hledger := hplay.ledger.acted (hplay.actedBy action)
  have hmatched := (h.isMatched d hd).acted hplay hfold
  have hfollows := hplay.follows hd hstep
  have hplaying : ∀ d', t'.decision? = some d' → Playing start dealt t'.deck d' :=
    fun d' => playing_of_follows hplay hfollows
  cases hfollows with
  | uncontested winner hone hwinner =>
    have hin := firstStillIn_stillIn hwinner
    exact staked_uncontested hledger hin (hmatched.le_winner hledger hone hin) _
  | next seat hmany hopen =>
    refine ⟨hplaying, fun d' hd' => ?_, by simp [GameTree.atDecision]⟩
    rw [GameTree.atDecision_decision?, Option.some.injEq] at hd'
    subst hd'
    exact hmatched
  | street s' deck' first hmany hdone hlater hfresh hleft hfirst =>
    refine ⟨hplaying, fun d' hd' => ?_, by simp [GameTree.atDecision]⟩
    rw [GameTree.atDecision_decision?, Option.some.injEq] at hd'
    subst hd'
    rw [GameState.setActionOn_players, hlater.players_eq]
    exact hmatched
  | showdown s' s'' deck' chipDeltas hmany hdone hlater hresolve =>
    refine ⟨hplaying, by simp, fun chipDeltas' hphase => ?_⟩
    obtain rfl : chipDeltas = chipDeltas' := by simpa using hphase
    have hmatched' : Matched s'.players := by
      rw [hlater.players_eq]
      exact hmatched
    obtain ⟨hsettled, hpays⟩ := settlement_of_showdown (hledger.collect.later hlater) hresolve
    refine ⟨hsettled, hpays.mp hmatched'.paysOut_cond, ?_⟩
    obtain ⟨-, hawards, rfl⟩ := resolveShowdown_eq_some hresolve
    obtain ⟨awards, hpots, hsum⟩ := paysPots_of_awardPots hawards
    rw [buildShowdownPots_eq_slices hmatched'] at hpots
    have hwithin := withinStakes_of_slices hpots hsum
    exact ⟨hwithin.wins_le, hwithin.loses_le⟩

section Hand

variable {handId deckSeed : ℕ} {order : Fin 52 → Card} {startingStacks : List ℕ} {dealer : ℕ}
  {t : GameTree startingStacks.length}

/-- When nobody can be asked, the first seat with chips is paid; it has matched
everybody if nobody brought more. -/
theorem staked_new (hfunded : 2 ≤ fundedSeats startingStacks)
    (hopen : (∃ i, e.rules.ante + blindsOf e startingStacks dealer i < startingStacks.get i) ∨
      ∀ w, (List.finRange startingStacks.length).find? (fun i => 0 < startingStacks.get i) =
        some w → ∀ j, startingStacks.get j ≤ startingStacks.get w)
    (hnew : (GameTree.new e handId deckSeed order startingStacks dealer none).2 = some t) :
    Staked startingStacks.get (2 * fundedSeats startingStacks) t := by
  have hplaying := playing_new hnew
  obtain ⟨s, deck, hopened, ⟨first, hactive, rfl⟩ | ⟨hnone, winner, hwinner, rfl⟩⟩ :=
    new_cases hnew
  · refine ⟨hplaying, fun d hd j hj => ?_, by simp [GameTree.atDecision]⟩
    rw [GameTree.atDecision_decision?, Option.some.injEq] at hd
    subst hd
    rw [GameState.setActionOn_players, hopened.players_eq j] at hj
    exact absurd hj (forcedBets_status_ne_folded _ _ _)
  · have hin := firstStillIn_stillIn hwinner
    have hledger := hopened.ledger
    refine staked_uncontested hledger hin (fun j => ?_) deck
    have hlargest : ∀ j, startingStacks.get j ≤ startingStacks.get winner := by
      rcases hopen with ⟨i, hi⟩ | hfirst
      · refine absurd ?_ (hnone i)
        rw [hopened.players_eq i]
        exact forcedPlayer_active_iff.mpr hi
      · refine hfirst winner ?_
        rw [← hwinner, GameState.firstStillIn]
        congr 1
        funext i
        rw [hopened.stillIn_eq (by omega), deadHand, Bool.not_false, Bool.and_true]
    -- every seat with chips is all-in
    have hall : (s.players winner).stack = 0 := by
      refine (hledger.seat winner).stack_eq ?_
      have hactive := hnone winner
      simp only [PlayerState.stillIn, Bool.or_eq_true, decide_eq_true_eq] at hin
      exact hin.resolve_left hactive
    have hwon := (hledger.seat winner).stack_add
    have := (hledger.seat j).stack_add
    have := hlargest j
    omega

/-- In a hand without dead hands, whichever way it ends, no seat wins more from another
than it has put in itself, and no seat that stays in loses more than another has matched,
if every fold is of matched chips, the first seat with chips has the largest stack where
the forced bets put every seat all-in, and no seat can win `2 ^ 31` chips. -/
theorem table_stakes (e : Engine) (handId deckSeed : ℕ) (order : Fin 52 → Card)
    (startingStacks : List ℕ) (dealer : ℕ) (answers : List Action)
    (hfunded : 2 ≤ fundedSeats startingStacks)
    (hfits : ∀ i, ∑ j ∈ Finset.univ.erase i, startingStacks.get j < 2 ^ 31)
    (hopen : (∃ i, e.rules.ante + blindsOf e startingStacks dealer i < startingStacks.get i) ∨
      ∀ w, (List.finRange startingStacks.length).find? (fun i => 0 < startingStacks.get i) =
        some w → ∀ j, startingStacks.get j ≤ startingStacks.get w)
    (hfold : ∀ p ∈ answered
      (runHand e handId deckSeed order startingStacks dealer none answers).1 answers,
      MatchedFold p.1 p.2) :
    TableStakes (runHand e handId deckSeed order startingStacks dealer none answers).2 := by
  intro result players chipDeltas rest hfinished
  rcases runHand_trace (MatchedFold (n := startingStacks.length)) hfold with
    ⟨-, hpanicked⟩ | ⟨t, used, rest', t', hnew, -, htrace, hends⟩
  · simp [hpanicked] at hfinished
  · rw [hfinished] at hends
    obtain ⟨hphase, rfl, rfl, rfl⟩ := hends.terminal
    have hstaked := htrace.invariant (Staked startingStacks.get (2 * fundedSeats startingStacks))
      (fun t action t' h ⟨d, hd, hok, hstep⟩ => h.step hd hok hstep)
      (staked_new hfunded hopen hnew)
    obtain ⟨hsettled, hpays, hwithin⟩ := hstaked.settled chipDeltas hphase
    exact tableStakes_of_withinStakes hsettled hpays hfits hwithin _ rest _ _ _ _ rfl

end Hand

/-- Heads-up, the small blind that folds is matched by the big blind. -/
theorem table_stakes_heads_up :
    TableStakes (runHand ⟨⟨.noLimit, 1, 2, 0⟩, ⟨fun _ => 0⟩⟩ 1 0 (fun i => ⟨i⟩) [100, 100] 0 none
      [.fold]).2 :=
  table_stakes _ 1 0 _ [100, 100] 0 [.fold] (by decide) (by decide)
    (Or.inl ⟨0, by decide⟩) (by
      have hall : ∀ p ∈ answered (runHand ⟨⟨.noLimit, 1, 2, 0⟩, ⟨fun _ => 0⟩⟩ 1 0 (fun i => ⟨i⟩)
          [100, 100] 0 none [.fold]).1 [.fold],
          ∃ k, k ≠ p.1.seat ∧ (p.1.state.players k).stillIn ∧
            (p.1.state.players p.1.seat).totalCommitted ≤
              (p.1.state.players k).totalCommitted := by
        decide +kernel
      exact fun p hp _ => hall p hp)

/-! ## A short all-in that outlasts deeper players -/

/-- Seat 0 is all-in for 10 before the flop. The others put in 50 more each and fold. -/
def outlastedAnswers : List Action := [.allIn, .call, .call, .raise 50, .call, .fold, .fold]

/-- The outcome of that hand. -/
def outlastedHand : List (Output 3) × HandOutcome 3 :=
  runHand ⟨⟨.noLimit, 1, 2, 0⟩, ⟨fun _ => 0⟩⟩ 1 0 (fun i => ⟨i⟩) [10, 100, 100] 0 none
    outlastedAnswers

/-- What a seat wins, and what the others have put in up to its own commitment. -/
def HandOutcome.winnings (i : Fin n) : HandOutcome n → Option (ℤ × ℤ)
  | .finished result players _ _ => (result.seats.find? fun o => o.seat = i.val).map fun o =>
      (o.chipDelta, ∑ j ∈ Finset.univ.erase i,
        min ((players j).totalCommitted : ℤ) (players i).totalCommitted)
  | _ => none

theorem TableStakes.winnings_le {outcome : HandOutcome n} {i : Fin n} {won bound : ℤ}
    (h : TableStakes outcome) (hwinnings : outcome.winnings i = some (won, bound)) :
    won ≤ bound := by
  cases outcome with
  | finished result players chipDeltas rest =>
    simp only [HandOutcome.winnings, Option.map_eq_some_iff, Prod.mk.injEq] at hwinnings
    obtain ⟨o, hfind, rfl, rfl⟩ := hwinnings
    obtain ⟨i', hseat, hle, -⟩ := h _ _ _ _ rfl o (List.mem_of_find?_eq_some hfind)
    have hi : o.seat = i.val := by simpa using List.find?_some hfind
    obtain rfl : i' = i := Fin.ext (hseat.symm.trans hi)
    exact hle
  | waiting => simp [HandOutcome.winnings] at hwinnings
  | panicked => simp [HandOutcome.winnings] at hwinnings
  | spinning => simp [HandOutcome.winnings] at hwinnings

/-- It wins 120 although it put in 10. -/
theorem table_stakes_broken :
    (∀ p ∈ answered outlastedHand.1 outlastedAnswers,
      p.1.legal ⟨⟨.noLimit, 1, 2, 0⟩, ⟨fun _ => 0⟩⟩ p.2) ∧ ¬ TableStakes outlastedHand.2 := by
  refine ⟨by decide +kernel, fun h => ?_⟩
  have hwinnings : outlastedHand.2.winnings 0 = some (120, 20) := by decide +kernel
  exact absurd (h.winnings_le hwinnings) (by decide)

end VibePoker.Game
