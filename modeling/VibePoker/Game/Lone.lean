import VibePoker.Game.Cover
import VibePoker.Game.Termination

/-!
# Lone contenders

A hand in which a single seat is live is over after at most one answer, and
leaves that seat with everything that was posted: it is paid without a showdown,
or it gave up an empty pot.

## Main definitions

* `OnlyIn` — a single seat may still be in
* `TakesAll` — what a lone seat ends up with

## Main results

* `takesAll_of_trace` — a hand with one live seat
-/

namespace VibePoker.Game

open VibePoker.Core VibePoker.CS

variable {n : ℕ} {e : Engine}

/-- No seat but `i` is still in. -/
def OnlyIn (i : Fin n) (s : GameState n) : Prop := ∀ j, (s.players j).stillIn → j = i

/-- Seat `i` is paid all the chips that are paid. -/
def TakesAll (i : Fin n) (chipDeltas : Fin n → ℤ) : Prop := ∀ j, j ≠ i → chipDeltas j = 0

theorem OnlyIn.playersStillIn_le {i : Fin n} {s : GameState n} (h : OnlyIn i s) :
    s.playersStillIn ≤ 1 := by
  refine Finset.card_le_one.mpr fun j hj k hk => ?_
  simp only [Finset.mem_filter, Finset.mem_univ, true_and] at hj hk
  rw [h j hj, h k hk]

theorem takesAll_uncontested {i : Fin n} {s : GameState n} {winner : Fin n} (h : OnlyIn i s)
    (hwinner : s.firstStillIn = some winner) :
    TakesAll i (Engine.awardUncontested s winner).2 := by
  intro j hj
  obtain rfl := h winner (firstStillIn_stillIn hwinner)
  exact if_neg hj

/-- The answer of a lone contender ends the hand. -/
theorem terminal_of_onlyIn {start : Fin n → ℕ} {dealt : ℕ} {t t' : GameTree n} {d : Decision n}
    {action : Action} {i : Fin n} (hplay : Playing start dealt t.deck d) (h : OnlyIn i d.state)
    (hd : t.decision? = some d) (hlast : ContestedFold d action)
    (hstep : (t.applyAction e action).2 = some t') :
    ∃ chipDeltas, t'.phase = .terminal chipDeltas ∧ TakesAll i chipDeltas := by
  have honly : OnlyIn i (d.acted action) := fun j hj => h j (hplay.acted_stillIn action hj)
  have hle := honly.playersStillIn_le
  have hledger := hplay.ledger.acted (hplay.actedBy action)
  have hfollows := hplay.follows hd hstep
  cases hfollows with
  | uncontested winner hone hwinner => exact ⟨_, rfl, takesAll_uncontested honly hwinner⟩
  | next seat hmany hopen =>
    have : 0 < (d.acted action).playersStillIn := Finset.card_pos.mpr
      ⟨seat, by simp [PlayerState.stillIn, unsettled_active hopen]⟩
    omega
  | street s' deck' first hmany hdone hlater hfresh hleft hfirst =>
    have hactive := firstToAct_active hfirst
    rw [hlater.players_eq] at hactive
    have : 0 < (d.acted action).playersStillIn := Finset.card_pos.mpr
      ⟨first, by simp [PlayerState.stillIn, show ((d.acted action).players first).status = _ from
        hactive]⟩
    omega
  | showdown s' s'' deck' chipDeltas hmany hdone hlater hresolve =>
    refine ⟨chipDeltas, rfl, fun j _ => ?_⟩
    -- nobody is left, so the pot was empty
    have hempty : ∀ j, ((d.acted action).players j).totalCommitted = 0 := by
      rcases hlast.acted hplay with ⟨k, hk⟩ | hempty
      · have : 0 < (d.acted action).playersStillIn := Finset.card_pos.mpr ⟨k, by simpa using hk⟩
        omega
      · exact hempty
    obtain ⟨-, hawards, -⟩ := resolveShowdown_eq_some hresolve
    refine (awards_spec hawards).2.2 j (Or.inr ?_)
    rw [hlater.players_eq]
    exact hempty j

section Hand

variable {handId deckSeed : ℕ} {order : Fin 52 → Card} {startingStacks : List ℕ} {dealer : ℕ}
  {seatKinds : Option (List SeatKind)} {t t' : GameTree startingStacks.length}
  {i : Fin startingStacks.length}

/-- Seat `i` is the only live seat with chips. -/
def LoneLive (startingStacks : List ℕ) (seatKinds : Option (List SeatKind))
    (i : Fin startingStacks.length) : Prop :=
  ∀ j, 0 < startingStacks.get j → deadHand seatKinds j = false → j = i

theorem Opened.onlyIn {deck deck' : Deck} {s : GameState startingStacks.length}
    (h : Opened e handId deck startingStacks dealer seatKinds s deck')
    (hfunded : 0 < fundedSeats startingStacks) (hlone : LoneLive startingStacks seatKinds i) :
    OnlyIn i s := by
  intro j hj
  rw [h.stillIn_eq hfunded j] at hj
  simp only [Bool.and_eq_true, decide_eq_true_eq, Bool.not_eq_true'] at hj
  exact hlone j hj.1 hj.2

/-- A hand with one live seat is over after at most one answer, and pays that
seat only. -/
theorem takesAll_of_trace {ok : Decision startingStacks.length → Action → Prop}
    (hok : ∀ d action, ok d action → ContestedFold d action)
    (hfunded : 0 < fundedSeats startingStacks) (hlone : LoneLive startingStacks seatKinds i)
    (hnew : (GameTree.new e handId deckSeed order startingStacks dealer seatKinds).2 = some t)
    {used : List Action} (htrace : Trace (GameTree.Step e ok) t used t') :
    (used = [] ∧ t'.decision? ≠ none) ∨
      ∃ chipDeltas, t'.phase = .terminal chipDeltas ∧ TakesAll i chipDeltas := by
  have hplaying := playing_new hnew
  obtain ⟨s, deck, hopened, ⟨first, -, rfl⟩ | ⟨-, winner, hwinner, rfl⟩⟩ := new_cases hnew
  · have hd := GameTree.atDecision_decision? s deck first fun _ => false
    cases htrace with
    | nil => exact Or.inl ⟨rfl, by simp⟩
    | cons head tail =>
      obtain ⟨d, hd', hdok, hstep⟩ := head
      obtain rfl := Option.some.inj (hd.symm.trans hd')
      obtain ⟨chipDeltas, hphase, htakes⟩ := terminal_of_onlyIn (hplaying _ hd)
        (hopened.onlyIn hfunded hlone) hd (hok _ _ hdok) hstep
      cases tail with
      | nil => exact Or.inr ⟨chipDeltas, hphase, htakes⟩
      | cons head' _ =>
        obtain ⟨d', hd', -⟩ := head'
        simp [GameTree.decision?_eq_none_iff.mpr ⟨chipDeltas, hphase⟩] at hd'
  · have htakes := takesAll_uncontested (hopened.onlyIn hfunded hlone) hwinner
    cases htrace with
    | nil => exact Or.inr ⟨_, rfl, htakes⟩
    | cons head _ =>
      obtain ⟨d', hd', -⟩ := head
      simp at hd'

end Hand

/-- A seat that is paid everything wins what the others have put in. -/
theorem TakesAll.stack_eq {start : Fin n → ℕ} {s : GameState n} {chipDeltas : Fin n → ℤ}
    {i : Fin n} (h : TakesAll i chipDeltas) (hsettled : Settlement start s chipDeltas)
    (hpays : PaysOut s chipDeltas) :
    (s.players i).stack =
      start i + ∑ j ∈ Finset.univ.erase i, (s.players j).totalCommitted := by
  have htotal : ∑ j, chipDeltas j = chipDeltas i :=
    Finset.sum_eq_single i (fun j _ hj => h j hj) (by simp)
  have hsplit := Finset.add_sum_erase Finset.univ
    (fun j => ((s.players j).totalCommitted : ℤ)) (Finset.mem_univ i)
  have hstack := hsettled.stack_eq i
  rw [PaysOut, htotal] at hpays
  have hcast : ((∑ j ∈ Finset.univ.erase i, (s.players j).totalCommitted : ℕ) : ℤ) =
      ∑ j ∈ Finset.univ.erase i, ((s.players j).totalCommitted : ℤ) := Nat.cast_sum _ _
  omega

end VibePoker.Game
