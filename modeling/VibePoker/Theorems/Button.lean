import VibePoker.Server.Button
import VibePoker.Theorems.Quorum

/-!
# Fair turns at the button

Over hands with the same seats dealt in, the dealer should go from each of them to the next.
The stored button goes over all occupied seats instead, also over those that are too short
to be dealt in. When it stops at such a seat, the next seat dealt in becomes dealer, and the
button that moves on after that hand finds the same dealer again.

## Main definitions

* `Rotates` — the dealer goes around, and everyone has the button once in a round
* `KeepsPace` — the button is on the dealer and moves on past it, not past the next dealer

## Main results

* `rotates_iff` — the dealer goes around exactly as long as the button keeps pace
-/

namespace VibePoker.Server

open VibePoker.Core VibePoker.Game VibePoker.Net VibePoker.Math

variable {κ : Type*} {m : ℕ}

/-! ## The statement -/

/-- Over hands with the same seats dealt in, the dealer goes from each seat to the next one,
and in as many hands as there are seats each of them is dealer once. -/
structure Rotates (dealtIn : List (Fin m)) (hands : List (PlayedHand κ m)) : Prop where
  advances : hands.IsChain fun hand next => next.dealerSeat = hand.nextDealer
  fair : ∀ before window after, hands = before ++ window ++ after →
    window.length = dealtIn.length →
      (window.map PlayedHand.dealerSeat).Perm (dealtIn.map some)

/-- When the hand has settled, no seat is occupied after the button and up to the dealer,
unless the button is on the dealer, and a seat is occupied after the dealer and up to the
next seat dealt in. With one seat dealt in there is nothing to keep up with. -/
def KeepsPace (hand : PlayedHand κ m) : Prop :=
  hand.dealtIn.length ≤ 1 ∨ ∀ d ∈ hand.dealerSeat, ∀ s ∈ hand.nextDealer,
    (hand.button = d ∨ ∀ i, (hand.settled i).isSome → ¬ Clockwise hand.button i d) ∧
      ∃ i, (hand.settled i).isSome ∧ Clockwise d i s

instance (hand : PlayedHand κ m) : Decidable (KeepsPace hand) := by
  unfold KeepsPace
  infer_instance

/-! ## One hand -/

/-- The dealer of a hand as an index into the seats dealt in. -/
theorem dealer_eq_firstFrom {hand : PlayedHand κ m}
    (h : TableActor.DealsFrom hand.button hand.snapshot) :
    hand.snapshot.dealer = firstFrom (hand.dealtIn.map Fin.val) hand.button := by
  rw [h.dealer_eq, PlayedHand.dealtIn, List.map_map]
  rfl

theorem sorted_dealtIn {hand : PlayedHand κ m}
    (h : TableActor.DealsFrom hand.button hand.snapshot) :
    (hand.dealtIn.map Fin.val).Pairwise (· < ·) := by
  rw [PlayedHand.dealtIn, List.map_map]
  exact h.sorted

/-- The dealer found from a button that moves on is the next one exactly if the button
passes the dealer and stops at the next one or before. -/
theorem firstFrom_next_iff {seats : List (Fin m)} (hsorted : (seats.map Fin.val).Pairwise (· < ·))
    (hmany : 2 ≤ seats.length) {occupied : Fin m → Prop} {b b' : ℕ}
    (hmove : MovesOn (fun x => ∃ i : Fin m, i.val = x ∧ occupied i) b b') :
    seats[firstFrom (seats.map Fin.val) b']? =
        seats[(firstFrom (seats.map Fin.val) b + 1) % seats.length]? ↔
      ∀ d ∈ seats[firstFrom (seats.map Fin.val) b]?,
        ∀ s ∈ seats[(firstFrom (seats.map Fin.val) b + 1) % seats.length]?,
          (b = d ∨ ∀ i, occupied i → ¬ Clockwise b i d) ∧ ∃ i, occupied i ∧ Clockwise d i s := by
  have hrange : ∀ button, firstFrom (seats.map Fin.val) button < seats.length := fun button => by
    have hpos : 0 < (seats.map Fin.val).length := by
      rw [List.length_map]
      omega
    simpa using firstFrom_lt hpos button
  obtain ⟨f, hf⟩ : ∃ f, firstFrom (seats.map Fin.val) b = f := ⟨_, rfl⟩
  have hlt : f < seats.length := hf ▸ hrange b
  have hsucc : (f + 1) % seats.length < seats.length := Nat.mod_lt _ (by omega)
  have hne : f ≠ (f + 1) % seats.length := by
    rcases Nat.lt_or_ge (f + 1) seats.length with hstep | hlast
    · rw [Nat.mod_eq_of_lt hstep]
      omega
    · rw [show f + 1 = seats.length by omega, Nat.mod_self]
      omega
  have hnodup : seats.Nodup := List.Nodup.of_map Fin.val (hsorted.imp fun hab => hab.ne)
  have harc : ∀ button, firstFrom (seats.map Fin.val) button = (f + 1) % seats.length ↔
      Clockwise seats[f] button (seats.get ⟨_, hsucc⟩) := by
    intro button
    have hmembers := firstFrom_eq_succ_iff hsorted (i := f) (by rwa [List.length_map])
      (by rwa [List.length_map]) (by simpa using hsucc) button
    simpa only [List.length_map, List.getElem_map, List.get_eq_getElem] using hmembers
  have hseats : seats[f] ≠ seats.get ⟨_, hsucc⟩ := fun heq =>
    hne ((hnodup.getElem_inj_iff).mp heq)
  have hindex : seats[firstFrom (seats.map Fin.val) b']? = seats[(f + 1) % seats.length]? ↔
      firstFrom (seats.map Fin.val) b' = (f + 1) % seats.length := by
    rw [List.getElem?_eq_getElem (hrange b'), List.getElem?_eq_getElem hsucc, Option.some.injEq,
      hnodup.getElem_inj_iff]
  have hbehind : ¬ Clockwise seats[f] b (seats.get ⟨_, hsucc⟩) := by
    rw [← harc, hf]
    exact hne
  rw [hf, hindex, harc, clockwise_next_iff hmove (Fin.val_ne_of_ne hseats) hbehind,
    List.getElem?_eq_getElem hlt, List.getElem?_eq_getElem hsucc]
  -- a marked position is that of an occupied seat
  have hall : ∀ d, (∀ x, (∃ i : Fin m, i.val = x ∧ occupied i) → ¬ Clockwise b x d) ↔
      ∀ i, occupied i → ¬ Clockwise b i.val d := fun d =>
    ⟨fun h i hi => h i ⟨i, rfl, hi⟩, fun h x ⟨i, hx, hi⟩ => hx ▸ h i hi⟩
  have hany : ∀ d s, (∃ x, (∃ i : Fin m, i.val = x ∧ occupied i) ∧ Clockwise d x s) ↔
      ∃ i, occupied i ∧ Clockwise d i.val s := fun d s =>
    ⟨fun ⟨x, ⟨i, hx, hi⟩, harc⟩ => ⟨i, hi, hx ▸ harc⟩, fun ⟨i, hi, harc⟩ => ⟨i, ⟨i, rfl, hi⟩, harc⟩⟩
  rw [hall, hany]
  simp only [Option.mem_some_iff, forall_eq']
  rfl

/-- If the same seats are dealt in, the next hand has the next dealer exactly if the button
keeps pace. -/
theorem dealerSeat_next_iff {hand next : PlayedHand κ m}
    (h : TableActor.DealsFrom hand.button hand.snapshot)
    (hnext : TableActor.DealsFrom next.button next.snapshot)
    (hbutton : next.button = TableActor.buttonAfter hand)
    (hsame : next.dealtIn = hand.dealtIn) :
    next.dealerSeat = hand.nextDealer ↔ KeepsPace hand := by
  have hdealer := dealer_eq_firstFrom h
  have hdealer' := dealer_eq_firstFrom hnext
  have hsorted := sorted_dealtIn h
  rw [hsame, hbutton] at hdealer'
  simp only [PlayedHand.dealerSeat, PlayedHand.nextDealer, KeepsPace, hsame]
  generalize hseats : hand.dealtIn = seats at *
  rw [hdealer, hdealer']
  rcases Nat.lt_or_ge 1 seats.length with hmany | hfew
  · have hrange : hand.button < m :=
      h.range.elim (fun hzero => hzero ▸ (seats.get ⟨0, by omega⟩).pos) id
    rw [or_iff_right (Nat.not_le.mpr hmany)]
    exact firstFrom_next_iff hsorted hmany (movesOn_nextOccupiedSeat hand.settled hrange).1
  · -- with one seat at most there is one dealer at most
    refine iff_of_true ?_ (Or.inl hfew)
    match seats with
    | [] => rfl
    | [seat] =>
      have hzero : ∀ button, firstFrom (List.map Fin.val [seat]) button = 0 := fun button =>
        Nat.lt_one_iff.mp (@firstFrom_lt [seat.val] Nat.one_pos button)
      rw [hzero]
      simp [Nat.mod_one]

/-! ## Hands in a row -/

/-- In hands that follow one another, each dealer is the next one exactly if the button of
the hand before keeps pace. -/
theorem chain_of_follows {dealtIn : List (Fin m)} {hands : List (PlayedHand κ m)} {button : ℕ}
    (h : TableActor.Follows button hands) (hsame : ∀ hand ∈ hands, hand.dealtIn = dealtIn) :
    hands.IsChain fun hand next => next.dealerSeat = hand.nextDealer ↔ KeepsPace hand := by
  induction hands generalizing button with
  | nil => exact List.isChain_nil
  | cons hand hands ih =>
    obtain ⟨hbutton, hdeals, hlater⟩ := h
    have hrest := ih hlater fun next hnext => hsame next (List.mem_cons_of_mem _ hnext)
    cases hands with
    | nil => exact List.isChain_singleton hand
    | cons next hands =>
      obtain ⟨hbutton', hdeals', -⟩ := hlater
      refine List.isChain_cons_cons.mpr ⟨?_, hrest⟩
      refine dealerSeat_next_iff (hbutton ▸ hdeals) (hbutton' ▸ hdeals') hbutton' ?_
      rw [hsame next (by simp), hsame hand (by simp)]

/-- A relation between neighbours that is decided by the first of them. -/
theorem isChain_iff_of_isChain {α : Type*} {R : α → α → Prop} {p : α → Prop} {l : List α}
    (h : l.IsChain fun a b => R a b ↔ p a) : l.IsChain R ↔ ∀ a ∈ l.dropLast, p a := by
  induction l with
  | nil => simp
  | cons a l ih =>
    cases l with
    | nil => simp
    | cons b l =>
      obtain ⟨hab, hrest⟩ := List.isChain_cons_cons.mp h
      rw [List.isChain_cons_cons, List.dropLast_cons_cons, List.forall_mem_cons, hab, ih hrest]

theorem Follows.suffix {before hands : List (PlayedHand κ m)} {button : ℕ}
    (h : TableActor.Follows button (before ++ hands)) :
    ∃ later, TableActor.Follows later hands := by
  induction before generalizing button with
  | nil => exact ⟨button, h⟩
  | cons hand before ih => exact ih h.2.2

theorem Follows.init {hands after : List (PlayedHand κ m)} {button : ℕ}
    (h : TableActor.Follows button (hands ++ after)) : TableActor.Follows button hands := by
  induction hands generalizing button with
  | nil => trivial
  | cons hand hands ih => exact ⟨h.1, h.2.1, ih h.2.2⟩

theorem Follows.deals {hands : List (PlayedHand κ m)} {button : ℕ}
    (h : TableActor.Follows button hands) :
    ∀ hand ∈ hands, TableActor.DealsFrom hand.button hand.snapshot := by
  induction hands generalizing button with
  | nil => simp
  | cons hand hands ih =>
    refine List.forall_mem_cons.mpr ⟨?_, ih h.2.2⟩
    rw [h.1]
    exact h.2.1

/-- Dealers that go from seat to seat give each seat one of as many hands. -/
theorem window_perm {dealtIn : List (Fin m)} {window : List (PlayedHand κ m)}
    (hsame : ∀ hand ∈ window, hand.dealtIn = dealtIn)
    (hdeals : ∀ hand ∈ window, TableActor.DealsFrom hand.button hand.snapshot)
    (hchain : window.IsChain fun hand next => next.dealerSeat = hand.nextDealer)
    (hlen : window.length = dealtIn.length) :
    (window.map PlayedHand.dealerSeat).Perm (dealtIn.map some) := by
  have hlt : ∀ hand ∈ window, hand.snapshot.dealer < dealtIn.length := by
    intro hand hhand
    have hpos : 0 < (dealtIn.map Fin.val).length := by
      rw [List.length_map, ← hlen]
      exact List.length_pos_of_mem hhand
    rw [dealer_eq_firstFrom (hdeals hand hhand), hsame hand hhand]
    simpa using firstFrom_lt hpos hand.button
  have hturns : (window.map fun hand => hand.snapshot.dealer).IsChain
      fun i j => j = (i + 1) % dealtIn.length := by
    rw [List.isChain_map]
    refine hchain.imp_of_mem_imp fun hand next hhand hnext hadvance => ?_
    have hsorted := sorted_dealtIn (hdeals hand hhand)
    rw [hsame hand hhand] at hsorted
    have hnodup : dealtIn.Nodup := List.Nodup.of_map Fin.val (hsorted.imp fun hab => hab.ne)
    have hpos : 0 < dealtIn.length := (Nat.zero_le _).trans_lt (hlt hand hhand)
    rw [PlayedHand.dealerSeat, PlayedHand.nextDealer, hsame hand hhand, hsame next hnext,
      List.getElem?_eq_getElem (hlt next hnext), List.getElem?_eq_getElem (Nat.mod_lt _ hpos),
      Option.some.injEq, hnodup.getElem_inj_iff] at hadvance
    exact hadvance
  -- the deal orders take turns from one to the next, so as many hands as seats visit each once
  have hperm := turns_perm hturns (by simpa using hlt) (by rwa [List.length_map])
  have hdealers : window.map PlayedHand.dealerSeat =
      (window.map fun hand => hand.snapshot.dealer).map fun i => dealtIn[i]? := by
    rw [List.map_map]
    refine List.map_congr_left fun hand hhand => ?_
    rw [PlayedHand.dealerSeat, hsame hand hhand]
    rfl
  have hall : ((List.range dealtIn.length).map fun i => dealtIn[i]?) = dealtIn.map some :=
    List.ext_getElem (by simp) fun i hi _ => by simp
  rw [hdealers, ← hall]
  exact hperm.map _

/-! ## Runs of a table -/

/-- In every run of a table, over consecutive hands with the same seats dealt in, the dealer
goes around, and everyone has the button once in a round, if and only if in each of the
hands but the last the button keeps pace. -/
theorem rotates_iff (e : Engine) (sessionOf : κ → ℤ) (tableId : ℕ) (config : TableConfig)
    (ops : List (TableOp κ)) {before hands after : List (PlayedHand κ m)}
    (hrun : TableActor.handsOf e sessionOf tableId config .new ops = before ++ hands ++ after)
    {dealtIn : List (Fin m)} (hsame : ∀ hand ∈ hands, hand.dealtIn = dealtIn) :
    Rotates dealtIn hands ↔ ∀ hand ∈ hands.dropLast, KeepsPace hand := by
  have hfollows : TableActor.Follows 0
      (TableActor.handsOf e sessionOf tableId config (.new : TableActor κ m) ops) :=
    TableActor.follows_handsOf TableActor.buttonInv_new ops
  rw [hrun] at hfollows
  obtain ⟨button, hhands⟩ := Follows.suffix (Follows.init hfollows)
  have hiff := isChain_iff_of_isChain (chain_of_follows hhands hsame)
  constructor
  · exact fun hrotates => hiff.mp hrotates.advances
  · intro hpace
    have hchain := hiff.mpr hpace
    refine ⟨hchain, fun start window rest hsplit hlen => ?_⟩
    have hwithin : window <:+: hands := ⟨start, rest, hsplit.symm⟩
    have hwindow := List.IsChain.infix hchain hwithin
    exact window_perm (fun hand hhand => hsame hand (hwithin.subset hhand))
      (fun hand hhand => Follows.deals hhands hand (hwithin.subset hhand))
      hwindow hlen

/-! ## A table with a short seat -/

/-- Three seats, two of them needed, and a big blind of 2. -/
def threeSeatTable : TableConfig := ⟨3, 2, 2, 30000⟩

/-- Play one hand with the given answers. -/
def playHand (answers : List Action) : List (TableOp ℤ) :=
  [.actor .quorum, .actor .snapshot, .actor (.finish (fun i => ⟨i⟩) answers)]

/-- Three players join with 20 chips each, and a hand is played for each list of answers. -/
def threeSeatOps (answers : List (List Action)) : List (TableOp ℤ) :=
  [.sit 1 "ann" 1 20, .sit 2 "bob" 2 20, .sit 3 "cat" 3 20] ++ (answers.map playHand).flatten

def threeSeatHands (answers : List (List Action)) : List (PlayedHand ℤ 3) :=
  TableActor.handsOf headsUpEngine id 1 threeSeatTable .new (threeSeatOps answers)

/-- While everyone can post a big blind, the dealer goes around. -/
theorem rotates_three_seats :
    Rotates [0, 1, 2] (threeSeatHands [[.fold, .fold], [.fold, .fold], [.fold, .fold]]) := by
  have hrun : threeSeatHands [[.fold, .fold], [.fold, .fold], [.fold, .fold]] =
      [] ++ threeSeatHands [[.fold, .fold], [.fold, .fold], [.fold, .fold]] ++ [] := by
    rw [List.append_nil, List.nil_append]
  have hsame : ∀ hand ∈ threeSeatHands [[.fold, .fold], [.fold, .fold], [.fold, .fold]],
      hand.dealtIn = [0, 1, 2] := by decide +kernel
  refine (rotates_iff headsUpEngine id 1 threeSeatTable _ hrun hsame).mpr ?_
  decide +kernel

/-- In the first hand seat 1 is left with one chip. In the next two hands it is skipped, and
seat 2 is dealer both times. -/
theorem dealer_twice :
    ∃ first hands, threeSeatHands [[.fold, .raise 19, .allIn, .fold], [.fold], [.fold]] =
        first :: hands ∧ (∀ hand ∈ hands, hand.dealtIn = [0, 2]) ∧
      hands.map PlayedHand.dealerSeat = [some 2, some 2] ∧ ¬ Rotates [0, 2] hands := by
  have hdealt : (threeSeatHands [[.fold, .raise 19, .allIn, .fold], [.fold], [.fold]]).map
      PlayedHand.dealtIn = [[0, 1, 2], [0, 2], [0, 2]] := by decide +kernel
  have hdealer : (threeSeatHands [[.fold, .raise 19, .allIn, .fold], [.fold], [.fold]]).map
      PlayedHand.dealerSeat = [some 0, some 2, some 2] := by decide +kernel
  obtain ⟨first, hands, hhands, -, hlater⟩ := List.map_eq_cons_iff.mp hdealt
  rw [hhands, List.map_cons] at hdealer
  have hdealers := (List.cons.inj hdealer).2
  refine ⟨first, hands, hhands, fun hand hhand => ?_, hdealers, fun hrotates => ?_⟩
  · have hmem := List.mem_map_of_mem hhand (f := PlayedHand.dealtIn)
    rw [hlater] at hmem
    simpa using hmem
  · -- in two hands both of the seats should have been dealer
    have hfair := hrotates.fair [] hands [] (by simp) (by
      rw [← List.length_map (f := PlayedHand.dealtIn), hlater]
      rfl)
    rw [hdealers] at hfair
    exact absurd hfair (by decide)

end VibePoker.Server
