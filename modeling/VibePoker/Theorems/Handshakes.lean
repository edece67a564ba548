import VibePoker.Client.Gate

/-!
# Handshakes

Handshakes go to an open connection, and one that is asked for at another time is sent
once, when the connection opens. The client keeps to this as long as no handshake is asked
for while its flag is stale: after a `Connect` or a `Rejected` that came while the
connection was open, until it opens again or is lost.

## Main results

* `handshakesKept_iff`
-/

namespace VibePoker.Client

open VibePoker.Net

/-- No handshake is asked for while the flag is stale. -/
def AskedInTime (inputs : List Input) : Prop :=
  ∀ before request after, inputs = before ++ request :: after → request.requested ≠ none →
    gateOf before ≠ .stale

/-! ## The gate along a run -/

section Runs

variable (key : Option String)

theorem agrees_after (inputs : List Input) :
    Agrees ((ClientCore.new key).after inputs) (gateOf inputs) := by
  induction inputs using List.reverseRecOn with
  | nil => exact agrees_new key
  | append_singleton inputs input ih =>
    rw [ClientCore.after_append, gateOf_concat]
    exact ih.handle input

theorem opened_log (inputs : List Input) :
    opened ((ClientCore.new key).log inputs) = (gateOf inputs).isOpened := by
  induction inputs using List.reverseRecOn with
  | nil => rfl
  | append_singleton inputs input ih =>
    rw [ClientCore.log_append, gateOf_concat, opened_handle ((ClientCore.new key).after inputs),
      ← ih]
    exact opened_concat _ _

/-- A handshake waits because it was asked for before the connection opened, and is neither
sent nor replaced. -/
def Waits (log : List Entry) (msg : ClientMessage) : Prop :=
  ∃ earlier request between, log = earlier ++ request :: between ∧
    request.input.requested = some msg ∧ opened earlier = false ∧ request.sent = [] ∧
      ∀ entry ∈ between, entry.sent = [] ∧ entry.input.requested = none ∧
        entry.input.opens = false

theorem Waits.concat {log : List Entry} {msg : ClientMessage} (h : Waits log msg) {entry : Entry}
    (hsent : entry.sent = []) (hrequested : entry.input.requested = none)
    (hopens : entry.input.opens = false) : Waits (log ++ [entry]) msg := by
  obtain ⟨earlier, request, between, rfl, hrequest, hopened, hquiet, hbetween⟩ := h
  refine ⟨earlier, request, between ++ [entry], by simp, hrequest, hopened, hquiet, ?_⟩
  intro other hother
  rcases List.mem_append.mp hother with hother | hother
  · exact hbetween other hother
  · rw [List.mem_singleton] at hother
    subst hother
    exact ⟨hsent, hrequested, hopens⟩

theorem waits_of_pending (inputs : List Input) {msg : ClientMessage}
    (hpending : ((ClientCore.new key).after inputs).pendingHandshake = some msg) :
    Waits ((ClientCore.new key).log inputs) msg := by
  induction inputs using List.reverseRecOn generalizing msg with
  | nil => cases hpending
  | append_singleton inputs input ih =>
    rw [ClientCore.after_append] at hpending
    rw [ClientCore.log_append]
    cases handshakeCase_handle (agrees_after key inputs) input with
    | asked msg' requested opens kept sent waiting =>
      -- the handshake is the one that is asked for now
      rw [ClientCore.after_cons, ClientCore.after_nil, waiting] at hpending
      cases hflag : (gateOf inputs).flag with
      | true => simp [hflag] at hpending
      | false =>
        rw [hflag] at hpending sent
        cases hpending
        refine ⟨_, _, [], rfl, requested, ?_, sent, nofun⟩
        rw [opened_log]
        revert hflag
        cases gateOf inputs <;> decide
    | opening requested opens sent waiting =>
      rw [ClientCore.after_cons, ClientCore.after_nil, waiting] at hpending
      cases hpending
    | other requested opens sent waiting kept =>
      rcases waiting with hsame | hnone
      · exact (ih (hsame.symm.trans hpending)).concat sent requested opens
      · rw [ClientCore.after_cons, ClientCore.after_nil, hnone] at hpending
        cases hpending

/-- A handshake that waits still waits after entries that neither replace it, send it nor
close the connection. -/
theorem pending_after_quiet {core : ClientCore} {gate : Gate} (h : Agrees core gate)
    {msg : ClientMessage} (hpending : core.pendingHandshake = some msg) (inputs : List Input)
    (hquiet : ∀ entry ∈ core.log inputs, entry.input.requested = none ∧
      entry.input.opens = false ∧ entry.closes = false) :
    (core.after inputs).pendingHandshake = some msg ∧
      ∀ entry ∈ core.log inputs, entry.sent = [] := by
  induction inputs generalizing core gate with
  | nil => exact ⟨hpending, nofun⟩
  | cons input inputs ih =>
    rw [ClientCore.log, List.forall_mem_cons] at hquiet ⊢
    obtain ⟨⟨hrequested, hopens, hcloses⟩, hquiet⟩ := hquiet
    cases handshakeCase_handle h input with
    | asked msg' requested => exact absurd (requested.symm.trans hrequested) (by simp)
    | opening _ opens => exact absurd (opens.symm.trans hopens) (by simp)
    | other _ _ sent _ kept =>
      obtain ⟨hlater, hsilent⟩ := ih (h.handle input) ((kept hcloses).trans hpending) hquiet
      exact ⟨hlater, sent, hsilent⟩

/-- What an entry of a run does to the handshake that waits. -/
theorem entry_cases {key : Option String} {inputs : List Input} {before after : List Entry}
    {entry : Entry} (h : (ClientCore.new key).log inputs = before ++ entry :: after) :
    ∃ earlier later, inputs = earlier ++ entry.input :: later ∧
      opened before = (gateOf earlier).isOpened ∧
      opened (before ++ [entry]) = ((gateOf earlier).input entry.input).isOpened ∧
      (((ClientCore.new key).after earlier).pendingHandshake = none ∨
        ∃ msg, ((ClientCore.new key).after earlier).pendingHandshake = some msg ∧
          Waits before msg) ∧
      HandshakeCase ((ClientCore.new key).after earlier) (gateOf earlier) entry
        ((ClientCore.new key).after (earlier ++ [entry.input])) ∧
      ((ClientCore.new key).after (earlier ++ [entry.input])).log later = after := by
  obtain ⟨earlier, later, rfl, rfl, hentry, hafter⟩ := ClientCore.log_eq_append h
  refine ⟨earlier, later, rfl, opened_log key earlier, ?_, ?_, ?_, hafter⟩
  · rw [opened_concat, opened_log, opened_handle ((ClientCore.new key).after earlier), ← hentry]
  · cases hpending : ((ClientCore.new key).after earlier).pendingHandshake with
    | none => exact Or.inl rfl
    | some msg => exact Or.inr ⟨msg, rfl, waits_of_pending key earlier hpending⟩
  · rw [hentry, ClientCore.after_append]
    exact handshakeCase_handle (agrees_after key earlier) entry.input

end Runs

/-! ## The main result -/

/-- Handshakes are kept if none is asked for while the flag is stale. -/
theorem handshakesKept_of_askedInTime (key : Option String) {inputs : List Input}
    (h : AskedInTime inputs) : HandshakesKept ((ClientCore.new key).log inputs) where
  opened_of_sent before entry after hlog hsent := by
    obtain ⟨earlier, later, hinputs, -, hopened, -, hcase, -⟩ := entry_cases hlog
    rw [hopened]
    cases hcase with
    | asked msg requested _ _ sent _ =>
      have hfresh := h earlier _ later hinputs (by simp [requested])
      rw [Gate.input_of_requested requested]
      -- the flag stands, and is not stale
      cases hgate : gateOf earlier with
      | shut => simp [sent, hgate, Gate.flag] at hsent
      | stale => exact absurd hgate hfresh
      | opened => rfl
    | opening _ opens _ _ =>
      rw [Gate.input_of_opens opens]
      rfl
    | other _ _ sent _ _ => exact absurd sent hsent
  sent_of_opened before entry after msg hlog hrequested hopened := by
    obtain ⟨earlier, later, -, hgate, -, -, hcase, -⟩ := entry_cases hlog
    rw [hgate] at hopened
    cases hcase with
    | asked msg' requested _ _ sent _ =>
      cases requested.symm.trans hrequested
      cases hgate : gateOf earlier with
      | shut | stale => simp [hgate, Gate.isOpened] at hopened
      | opened => rw [sent, hgate, Gate.flag, if_pos rfl]
    | opening requested | other requested =>
      cases requested.symm.trans hrequested
  sent_of_waiting before request between opening after msg hlog hrequested hopened hquiet
      hopening := by
    obtain ⟨earlier, later, hinputs, hgate, -, -, hcase, hlater⟩ := entry_cases hlog
    rw [hgate] at hopened
    cases hcase with
    | opening requested | other requested =>
      cases requested.symm.trans hrequested
    | asked msg' requested _ _ sent waiting =>
      cases requested.symm.trans hrequested
      have hfresh := h earlier _ later hinputs (by simp [requested])
      have hflag : (gateOf earlier).flag = false := by
        revert hopened hfresh
        cases gateOf earlier <;> decide
      rw [hflag] at sent waiting
      -- the handshake waits up to the opening
      obtain ⟨mid, rest, -, rfl, hentry, -⟩ := ClientCore.log_eq_append hlater
      have hagrees := agrees_after key (earlier ++ [request.input])
      obtain ⟨hpending, hsilent⟩ := pending_after_quiet hagrees waiting mid hquiet
      refine ⟨sent, hsilent, ?_⟩
      have hlast := handshakeCase_handle
        (agrees_after key (earlier ++ [request.input] ++ mid)) opening.input
      rw [ClientCore.after_append _ _ mid, ← hentry] at hlast
      cases hlast with
      | asked _ _ opens | other _ opens => exact absurd (opens.symm.trans hopening) (by simp)
      | opening _ _ sent _ =>
        rw [sent, hpending]
        rfl
  requested_of_sent before entry after msg hlog hmem := by
    obtain ⟨earlier, later, -, -, -, hwaits, hcase, -⟩ := entry_cases hlog
    cases hcase with
    | asked msg' requested _ _ sent _ =>
      cases hflag : (gateOf earlier).flag with
      | false => simp [sent, hflag] at hmem
      | true =>
        rw [hflag, if_pos rfl] at sent
        rw [sent, List.mem_singleton] at hmem
        subst hmem
        exact ⟨sent, Or.inl requested⟩
    | opening _ opens sent _ =>
      rcases hwaits with hnone | ⟨msg', hpending, hwaits⟩
      · simp [sent, hnone] at hmem
      · rw [hpending, Option.toList_some] at sent
        rw [sent, List.mem_singleton] at hmem
        subst hmem
        exact ⟨sent, Or.inr ⟨opens, hwaits⟩⟩
    | other _ _ sent _ _ => simp [sent] at hmem

/-- Handshakes are kept exactly if none is asked for while the flag is stale. -/
theorem handshakesKept_iff (key : Option String) (inputs : List Input) :
    HandshakesKept ((ClientCore.new key).log inputs) ↔ AskedInTime inputs := by
  refine ⟨fun h => ?_, handshakesKept_of_askedInTime key⟩
  rintro before request after rfl hrequested hstale
  obtain ⟨msg, hmsg⟩ := Option.ne_none_iff_exists'.mp hrequested
  -- the flag stands, so that the handshake is sent
  have hcase := handshakeCase_handle (agrees_after key before) request
  have hlog := ClientCore.log_append (.new key) before (request :: after)
  have hopened := h.opened_of_sent _ _ _ hlog
  rw [opened_concat, opened_log, ← opened_handle, Gate.input_of_requested hmsg, hstale] at hopened
  cases hcase with
  | asked msg' _ _ _ sent _ =>
    rw [hstale] at sent
    exact absurd (hopened (by rw [sent]; simp [Gate.flag])) (by decide)
  | opening requested | other requested => exact hrequested requested

/-- A player who is turned away and asks again is answered before the new connection is
open. -/
theorem not_handshakesKept_rejected :
    ¬ HandshakesKept ((ClientCore.new none).log
      [.intent (.connect "127.0.0.1:9000"), .intent .connectionOpened,
        .intent (.authenticatePassword "alice" "wrong password" none),
        .message (.rejected protocolVersion "bad credentials"),
        .intent (.connect "127.0.0.1:9000"),
        .intent (.authenticatePassword "alice" "right password" none),
        .intent .connectionOpened]) := by
  intro h
  have hsent := h.opened_of_sent
    (ClientCore.log (.new none) [.intent (.connect "127.0.0.1:9000"), .intent .connectionOpened,
      .intent (.authenticatePassword "alice" "wrong password" none),
      .message (.rejected protocolVersion "bad credentials"),
      .intent (.connect "127.0.0.1:9000")])
    ⟨.intent (.authenticatePassword "alice" "right password" none),
      [.send (.authenticate protocolVersion (.password "alice" "right password") none)]⟩
    [⟨.intent .connectionOpened, []⟩] rfl (by decide)
  exact absurd hsent (by decide)

end VibePoker.Client
