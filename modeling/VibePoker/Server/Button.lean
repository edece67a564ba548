import VibePoker.Math.Clockwise
import VibePoker.Math.SeatRing
import VibePoker.Server.Seats

/-!
# The hands of a table and their buttons

The button of a table moves from occupied seat to occupied seat; the dealer of a hand is the
first seat at or after it that is dealt in. Sessions come and go, but only a hand that
settles moves the button.

## Main definitions

* `PlayedHand` — a hand with its button, its snapshot and the seats that it leaves
* `TableActor.handsOf` — the hands that a run settles

## Main results

* `TableActor.follows_handsOf` — how the button of one hand gives that of the next
-/

namespace VibePoker.Server

open VibePoker.Core VibePoker.Game VibePoker.Net VibePoker.Math

variable {κ : Type*} {m : ℕ}

/-! ## The next occupied seat -/

/-- The seat that the search meets after so many others. -/
theorem searchSeat_eq {button offset : ℕ} (hbutton : button < m) (hlt : offset < m) :
    (button + (offset + 1)) % m =
      if button + (offset + 1) < m then button + (offset + 1)
      else button + (offset + 1) - m := by
  split
  case isTrue h => exact Nat.mod_eq_of_lt h
  case isFalse h => rw [Nat.mod_eq_sub_mod (by omega), Nat.mod_eq_of_lt (by omega)]

/-- Each seat is met after some others, which lie between the start and it. -/
theorem exists_searchSeat {button x : ℕ} (hbutton : button < m) (hx : x < m) :
    ∃ offset < m, (button + (offset + 1)) % m = x := by
  rcases Nat.lt_or_ge button x with hlt | hge
  · refine ⟨x - button - 1, by omega, ?_⟩
    rw [searchSeat_eq hbutton (by omega), if_pos (by omega)]
    omega
  · refine ⟨x + m - button - 1, by omega, ?_⟩
    rw [searchSeat_eq hbutton (by omega), if_neg (by omega)]
    omega

/-- The search stops at the first occupied seat. -/
theorem nextOccupiedSeat_cases (seats : Fin m → Option (Seat κ)) {button : ℕ}
    (hbutton : button < m) :
    (TableInner.nextOccupiedSeat seats button = none ∧ ∀ i, (seats i).isSome = false) ∨
      ∃ offset < m, ∃ i : Fin m, TableInner.nextOccupiedSeat seats button = some i.val ∧
        i.val = (button + (offset + 1)) % m ∧ (seats i).isSome ∧
        ∀ j : Fin m, (seats j).isSome → ∀ earlier < offset,
          (button + (earlier + 1)) % m ≠ j.val := by
  cases hfound : TableInner.nextOccupiedSeat seats button with
  | none =>
    refine Or.inl ⟨rfl, fun i => ?_⟩
    obtain ⟨offset, hlt, hi⟩ := exists_searchSeat hbutton i.isLt
    have hmiss := List.findSome?_eq_none_iff.mp hfound offset (List.mem_range.mpr hlt)
    simp only [hi, i.isLt, dite_true] at hmiss
    simpa using hmiss
  | some next =>
    right
    obtain ⟨before, offset, after, hsplit, hhit, hmiss⟩ := List.findSome?_eq_some_iff.mp hfound
    have hlength : before.length = offset := by
      have hget : (List.range m)[before.length]? = some offset := by simp [hsplit]
      obtain ⟨hlt, hget⟩ := List.getElem?_eq_some_iff.mp hget
      rw [← hget, List.getElem_range]
    have hlt : offset < m := by
      rw [← List.mem_range, hsplit]
      simp
    have hmod : (button + (offset + 1)) % m < m := Nat.mod_lt _ (by omega)
    dsimp only at hhit
    rw [dif_pos hmod] at hhit
    split at hhit
    case isFalse => cases hhit
    case isTrue hseat =>
      obtain rfl := Option.some.inj hhit
      refine ⟨offset, hlt, ⟨_, hmod⟩, rfl, rfl, hseat, fun j hj earlier hearlier heq => ?_⟩
      -- an occupied seat before the hit would have been found first
      have hmem : earlier ∈ before := by
        have hget : (List.range m)[earlier]? = some earlier :=
          List.getElem?_range (hearlier.trans hlt)
        rw [hsplit, List.getElem?_append_left (hlength.symm ▸ hearlier)] at hget
        exact List.mem_of_getElem? hget
      have hnone := hmiss earlier hmem
      simp only [heq, j.isLt, dite_true, hj, if_true] at hnone
      cases hnone

/-- The button moves on to the next occupied seat, if there is one. -/
theorem movesOn_nextOccupiedSeat (seats : Fin m → Option (Seat κ)) {button : ℕ}
    (hbutton : button < m) :
    MovesOn (fun x => ∃ i : Fin m, i.val = x ∧ (seats i).isSome) button
        ((TableInner.nextOccupiedSeat seats button).getD button) ∧
      (TableInner.nextOccupiedSeat seats button).getD button < m := by
  rcases nextOccupiedSeat_cases seats hbutton with ⟨hnone, hfree⟩ |
    ⟨offset, hlt, i, hsome, hi, hseat, hearlier⟩
  · rw [hnone]
    refine ⟨Or.inl ⟨rfl, ?_⟩, hbutton⟩
    rintro x ⟨j, -, hj⟩
    rw [hfree j] at hj
    cases hj
  · rw [hsome]
    refine ⟨Or.inr ⟨⟨i, rfl, hseat⟩, ?_⟩, i.isLt⟩
    rintro x ⟨j, rfl, hj⟩ hbetween
    obtain ⟨other, hother, hj'⟩ := exists_searchSeat hbutton j.isLt
    rw [Option.getD_some] at hbetween ⊢
    -- a seat on the arc would have been met before
    by_contra hne
    refine hearlier j hj other ?_ hj'
    have hjlt := j.isLt
    have hilt := i.isLt
    rw [searchSeat_eq hbutton hother] at hj'
    rw [searchSeat_eq hbutton hlt] at hi
    rw [Clockwise] at hbetween
    split_ifs at * <;> omega

/-! ## The hands of a run -/

/-- A hand that a table has played: its button and its snapshot, and the seats once it has
settled. -/
structure PlayedHand (κ : Type*) (m : ℕ) where
  button : ℕ
  snapshot : RunningSnapshot κ m
  settled : Fin m → Option (Seat κ)

namespace PlayedHand

/-- The seats that are dealt in. -/
def dealtIn (hand : PlayedHand κ m) : List (Fin m) :=
  hand.snapshot.players.map SnapshotPlayer.tableSeat

/-- The seat that acts as dealer. -/
def dealerSeat (hand : PlayedHand κ m) : Option (Fin m) := hand.dealtIn[hand.snapshot.dealer]?

/-- The next seat clockwise of the dealer that is dealt in. -/
def nextDealer (hand : PlayedHand κ m) : Option (Fin m) :=
  hand.dealtIn[(hand.snapshot.dealer + 1) % hand.dealtIn.length]?

end PlayedHand

namespace TableActor

/-- The hand that an operation settles. -/
def playedHand? (e : Engine) (tableId : ℕ) (a : TableActor κ m) :
    TableOp κ → Option (PlayedHand κ m)
  | .actor (.finish order answers) =>
    match a.phase with
    | .playing snapshot =>
      (runOneHand e tableId order snapshot answers).map fun result =>
        ⟨a.inner.button, snapshot, (a.inner.applyHandResult result).seats⟩
    | _ => none
  | _ => none

/-- The hands that the operations settle, as far as they can be made. -/
def handsOf (e : Engine) (sessionOf : κ → ℤ) (tableId : ℕ) (config : TableConfig) :
    TableActor κ m → List (TableOp κ) → List (PlayedHand κ m)
  | _, [] => []
  | a, op :: ops =>
    match a.step e sessionOf tableId config op with
    | none => []
    | some b => (a.playedHand? e tableId op).toList ++ handsOf e sessionOf tableId config b ops

/-! ## From button to button -/

/-- The button of the table once a hand has settled. -/
def buttonAfter (hand : PlayedHand κ m) : ℕ :=
  (TableInner.nextOccupiedSeat hand.settled hand.button).getD hand.button

/-- The dealer is the first seat dealt in at or after the button. -/
structure DealsFrom (button : ℕ) (snapshot : RunningSnapshot κ m) : Prop where
  range : button = 0 ∨ button < m
  sorted : (snapshot.players.map fun p => p.tableSeat.val).Pairwise (· < ·)
  dealer_eq : snapshot.dealer = firstFrom (snapshot.players.map fun p => p.tableSeat.val) button

/-- Hands that follow one another, the first with the given button. -/
def Follows : ℕ → List (PlayedHand κ m) → Prop
  | _, [] => True
  | button, hand :: hands =>
    hand.button = button ∧ DealsFrom button hand.snapshot ∧ Follows (buttonAfter hand) hands

/-- What a table keeps of its button: a hand in play was dealt from it. -/
structure ButtonInv (a : TableActor κ m) : Prop where
  range : a.inner.button = 0 ∨ a.inner.button < m
  deals : ∀ snapshot, a.phase = .playing snapshot → DealsFrom a.inner.button snapshot

theorem buttonInv_new : ButtonInv (new : TableActor κ m) where
  range := Or.inl rfl
  deals _ h := by cases h

theorem pairwise_eligible (config : TableConfig) (inner : TableInner κ m) :
    ((inner.eligible config).map fun p => p.tableSeat.val).Pairwise (· < ·) := by
  rw [TableInner.eligible, List.map_filterMap]
  refine List.Pairwise.filterMap (R := fun i j : Fin m => i.val < j.val) _ ?_ ?_
  · intro i j hij x hx y hy
    have hval : ∀ {i : Fin m} {x : ℕ}, x ∈ Option.map
        (fun p : SnapshotPlayer κ m => p.tableSeat.val) ((inner.seats i).bind fun seat =>
          if seat.stack < config.bigBlind then none else some ⟨i, seat.stack, seat.link⟩) →
        x = i.val := by
      intro i x hx
      obtain ⟨p, hp, rfl⟩ := Option.map_eq_some_iff.mp hx
      obtain ⟨seat, -, hp⟩ := Option.bind_eq_some_iff.mp hp
      split at hp
      · cases hp
      · obtain rfl := Option.some.inj hp
        rfl
    rw [hval hx, hval hy]
    exact hij
  · exact List.pairwise_lt_finRange m

theorem dealsFrom_takeRunningSnapshot (config : TableConfig) {inner : TableInner κ m}
    (hrange : inner.button = 0 ∨ inner.button < m) :
    DealsFrom inner.button (inner.takeRunningSnapshot config).1 where
  range := hrange
  sorted := pairwise_eligible config inner
  dealer_eq := by
    rw [firstFrom, TableInner.takeRunningSnapshot, List.findIdx?_map]
    rfl

variable {e : Engine} {sessionOf : κ → ℤ} {tableId : ℕ} {config : TableConfig}
  {a b : TableActor κ m}

/-- What does not move the button keeps the invariant. -/
theorem ButtonInv.of_button (h : ButtonInv a) {inner : TableInner κ m}
    (hbutton : inner.button = a.inner.button) : ButtonInv { a with inner := inner } where
  range := hbutton ▸ h.range
  deals snapshot hplaying := hbutton ▸ h.deals snapshot hplaying

theorem release_button (inner : TableInner κ m) (i : Fin m) :
    (inner.release i).button = inner.button := by
  unfold TableInner.release
  split <;> rfl

/-- What an operation does to the button: one that settles a hand moves it on, and all
others leave it. -/
structure ButtonStep (a b : TableActor κ m) (hand : Option (PlayedHand κ m)) : Prop where
  inv : ButtonInv b
  kept : hand = none → b.inner.button = a.inner.button
  moved : ∀ played, hand = some played → played.button = a.inner.button ∧
    DealsFrom a.inner.button played.snapshot ∧ b.inner.button = buttonAfter played

/-- An operation of a session. -/
theorem ButtonInv.session (h : ButtonInv a) {inner : TableInner κ m}
    (hbutton : inner.button = a.inner.button) :
    ButtonStep a { a with inner := inner } none where
  inv := h.of_button hbutton
  kept _ := hbutton
  moved _ hnone := by cases hnone

/-- A step of the actor. -/
theorem ButtonInv.advance (h : ButtonInv a) {op : ActorOp}
    (hstep : a.advance e tableId config op = some b) :
    ButtonStep a b (a.playedHand? e tableId (.actor op)) := by
  cases actorStep_of_advance hstep with
  | began hready hquorum =>
    refine ⟨⟨h.range, fun snapshot hplaying => ?_⟩, fun _ => rfl, fun _ hnone => by cases hnone⟩
    obtain rfl := ActorPhase.playing.inj hplaying
    exact dealsFrom_takeRunningSnapshot config h.range
  | @finished order answers snapshot result hplaying hresult =>
    have hplayed : a.playedHand? e tableId (.actor (.finish order answers)) =
        some ⟨a.inner.button, snapshot, (a.inner.applyHandResult result).seats⟩ := by
      simp only [playedHand?, hplaying, hresult, Option.map_some]
    refine ⟨⟨?_, fun _ hnone => by cases hnone⟩, fun hnone => ?_, fun played hsome => ?_⟩
    · rcases Nat.eq_zero_or_pos m with rfl | hpos
      · exact Or.inl (h.range.resolve_right (Nat.not_lt_zero _))
      · have hlt : a.inner.button < m := h.range.elim (fun hzero => hzero ▸ hpos) id
        exact Or.inr (movesOn_nextOccupiedSeat _ hlt).2
    · rw [hplayed] at hnone
      cases hnone
    · rw [hplayed] at hsome
      obtain rfl := Option.some.inj hsome
      exact ⟨rfl, h.deals snapshot hplaying, rfl⟩
  | _ =>
    -- the other steps deal no hand and leave the button
    exact ⟨⟨h.range, fun _ hplaying => by cases hplaying⟩, fun _ => rfl,
      fun _ hnone => by cases hnone⟩

theorem ButtonInv.step (h : ButtonInv a) {op : TableOp κ}
    (hstep : a.step e sessionOf tableId config op = some b) :
    ButtonStep a b (a.playedHand? e tableId op) := by
  rcases step_cases hstep with ⟨inner, hop, rfl, hseat⟩ | ⟨actorOp, rfl, -⟩
  · have hnone : a.playedHand? e tableId op = none := by
      cases op with
      | actor actorOp => exact absurd rfl (hop actorOp)
      | _ => rfl
    rw [hnone]
    cases hseat with
    | released i => exact h.session (release_button _ _)
    | _ => exact h.session rfl
  · exact h.advance hstep

/-- The hands of a run follow one another. -/
theorem follows_handsOf (h : ButtonInv a) (ops : List (TableOp κ)) :
    Follows a.inner.button (handsOf e sessionOf tableId config a ops) := by
  induction ops generalizing a with
  | nil => trivial
  | cons op ops ih =>
    rw [handsOf]
    cases hstep : a.step e sessionOf tableId config op with
    | none => trivial
    | some b =>
      obtain ⟨hinv, hkept, hmoved⟩ := h.step hstep
      have hlater := ih hinv
      cases hplayed : a.playedHand? e tableId op with
      | none => exact hkept hplayed ▸ hlater
      | some hand =>
        obtain ⟨hbutton, hdeals, hafter⟩ := hmoved hand hplayed
        exact ⟨hbutton, hdeals, hafter ▸ hlater⟩

end TableActor

end VibePoker.Server
