import ScorbitPlugin.Runs.System
import ScorbitPlugin.Wire.Framing

set_option relaxedAutoImplicit false
set_option autoImplicit false

/-!
# What a session puts on the wire

`SendAll`, `SendWireMessage`, `Exchange`, `Serve` and the calls of `Handshake` and `Dispatch` in
`src/SocketWorker.cpp`, as far as they decide what is written to a connection, byte by byte. The
socket takes some bytes of a message at a time, or none until the deadline; the worker is told to
stop at any time; what is asked, answered and refused is given with the steps.

A handler of `Dispatch` sends one message and returns whether that was sent, or returns false after
it; the daemon's `Bye` is answered with nothing.

## Main definitions

* `Transport.State`, `Transport.step` — a worker and its connection.
* `Transport.State.wire` — the bytes written to the connection.
* `Transport.Tidy` — no `Bye` behind a message that was cut short.

## Main results

* `Transport.read_as_sent` — the daemon reads the messages that were sent, and no others.
* `Transport.cut_bye` — unless a `Bye` is sent behind a cut message.
-/

namespace Transport

open Codec Wire

/-! ## The worker -/

/-- Who called `Exchange`: `Handshake`, or a function that `Serve` calls. -/
inductive Caller
  | handshake
  | serve
deriving DecidableEq, Repr

/-- Where a message is read: in the loop of `Serve`, or in that of `Exchange`. -/
inductive Place
  | loop
  | exchange (c : Caller) (seq : UInt32)
deriving DecidableEq, Repr

/-- What a `SendWireMessage` returns to. -/
inductive Next
  | request (c : Caller) (seq : UInt32)
  /-- A handler, with what `Dispatch` returns when the message was sent. -/
  | answer (place : Place) (ok : Bool)
  /-- The `SendError` of a `ReadMessage` that returns false. -/
  | refusal (place : Place)
  | bye
deriving DecidableEq, Repr

/-- Where the worker stands. -/
inductive Pc
  | offline
  /-- The loop of `Serve`, and between two requests of a function it calls. -/
  | serving
  /-- The loop of `Exchange`. -/
  | waiting (c : Caller) (seq : UInt32)
  /-- The loop of `SendAll`. -/
  | sending (m : Message) (sent : ℕ) (next : Next)
  /-- Before `alive = !m_running`. -/
  | leaving
deriving DecidableEq, Repr

/-- A `SendAll` that returned: what it wrote, and what it returned. -/
structure Sent where
  message : Message
  written : Bytes
  whole : Bool
deriving DecidableEq, Repr

/-- A worker and its connection. -/
structure State where
  /-- `m_running`. -/
  running : Bool := true
  /-- `m_seq`. -/
  seq : UInt32 := 0
  pc : Pc := .offline
  /-- The messages of the connection, oldest first. -/
  sends : List Sent := []
deriving DecidableEq, Repr

/-- What one turn of the loop of `SendAll` does. -/
inductive Turn
  /-- `send` took some bytes. -/
  | wrote (n : ℕ)
  /-- It would block, and the socket was waited for. -/
  | blocked
  /-- It failed, or the deadline has passed. -/
  | gaveUp
deriving DecidableEq, Repr

/-- What `Dispatch` does with a request. -/
inductive Handled
  | answer (m : Message) (ok : Bool)
  /-- The daemon's `Bye`. -/
  | bye
deriving DecidableEq, Repr

/-- What can happen. -/
inductive Act
  /-- `Stop`, on the API thread. -/
  | stop
  /-- `Connect`, and `Handshake` up to its `Exchange`; without a token that returns before it. -/
  | connect (hello : Option Bytes)
  /-- A function that `Serve` calls makes a request. -/
  | request (type : UInt16) (payload : Bytes)
  | turn (t : Turn)
  /-- A message is read: `ok` is what the caller of `Exchange` makes of a reply. -/
  | arrived (m : Message) (ok : Bool) (handled : Handled)
  /-- `ReadMessage` returns false, maybe after a `SendError`. -/
  | unread (refusal : Option Bytes)
  /-- A wait fails or its deadline passes, or the loop of `Exchange` ends. -/
  | waitFailed
  /-- `alive = !m_running`. -/
  | decide
  /-- The loop of `Serve` ends. -/
  | loopEnds
deriving DecidableEq, Repr

namespace State

variable (s : State)

/-- `Disconnect`. -/
def close : State := { s with pc := .offline }

/-- `Exchange` returned false. -/
def exchangeFailed : Caller → State
  | .handshake => s.close
  | .serve => { s with pc := .leaving }

/-- `ReadMessage` returned false. -/
def readFailed : Place → State
  | .loop => { s with pc := .leaving }
  | .exchange c _ => s.exchangeFailed c

/-- `Dispatch` returned. -/
def dispatched (ok : Bool) : Place → State
  | .loop => if ok then { s with pc := .serving } else s.close
  | .exchange c seq => if ok then { s with pc := .waiting c seq } else s.exchangeFailed c

/-- `SendWireMessage` returned. -/
def returned (ok : Bool) : Next → State
  | .request c seq => if ok then { s with pc := .waiting c seq } else s.exchangeFailed c
  | .answer place result => s.dispatched (ok && result) place
  | .refusal place => s.readFailed place
  | .bye => s.close

/-- `SendWireMessage`, up to the loop of `SendAll`. -/
def send (m : Message) (next : Next) : State :=
  if encodeMessage m = [] then s.returned false next else { s with pc := .sending m 0 next }

/-- `Exchange`, up to its loop. -/
def exchange (c : Caller) (type : UInt16) (payload : Bytes) : State :=
  { s with seq := s.seq + 1 }.send ⟨⟨type, 0, s.seq + 1⟩, payload⟩ (.request c (s.seq + 1))

/-- The `Bye` of a worker that stops. -/
def bye : State :=
  { s with seq := s.seq + 1 }.send
    ⟨⟨typeBye, 0, s.seq + 1⟩, Bye.encode ⟨"plugin unloading".toUTF8.toList⟩⟩ .bye

/-- `SendAll` returned. -/
def sent (m : Message) (written : ℕ) (whole : Bool) (next : Next) : State :=
  let sent : Sent := { message := m, written := (encodeMessage m).take written, whole }
  { s with sends := s.sends ++ [sent] }.returned whole next

/-- A request of the daemon. -/
def dispatch (place : Place) : Handled → State
  | .answer m ok => s.send m (.answer place ok)
  | .bye => s.dispatched false place

/-- A reply to the request of a caller. -/
def replied (c : Caller) (ok : Bool) : State :=
  if ok then { s with pc := .serving } else s.exchangeFailed c

/-- What of a message has been written. -/
def underWay : Bytes :=
  match s.pc with
  | .sending m sent _ => (encodeMessage m).take sent
  | _ => []

/-- The bytes written to the connection. -/
def wire : Bytes := s.sends.flatMap (·.written) ++ s.underWay

end State

/-- One step. -/
def step (s : State) : Act → Option State
  | .stop => some { s with running := false }
  | .connect hello =>
    if s.pc = .offline ∧ s.running = true then
      match hello with
      | none => some { s with seq := 0, sends := [] }
      | some payload =>
        some ({ s with seq := 0, sends := [] }.exchange .handshake typeHello payload)
    else none
  | .request type payload =>
    if s.pc = .serving then some (s.exchange .serve type payload) else none
  | .turn t =>
    match s.pc with
    | .sending m n next =>
      match t with
      | .wrote k =>
        if 0 < k ∧ n + k ≤ (encodeMessage m).length then
          if n + k < (encodeMessage m).length then some { s with pc := .sending m (n + k) next }
          else some (s.sent m (n + k) true next)
        else none
      | .blocked => some s
      | .gaveUp => some (s.sent m n false next)
    | _ => none
  | .arrived m ok handled =>
    match s.pc with
    | .serving => if m.header.isResponse then some s else some (s.dispatch .loop handled)
    | .waiting c seq =>
      if m.header.isResponse then
        if m.header.seq = seq then some (s.replied c ok) else some s
      else some (s.dispatch (.exchange c seq) handled)
    | _ => none
  | .unread refusal =>
    let failed (place : Place) : State :=
      match refusal with
      | none => s.readFailed place
      | some payload =>
        s.send ⟨⟨0, flagResponse ||| flagError, 0⟩, payload⟩ (.refusal place)
    match s.pc with
    | .serving => some (failed .loop)
    | .waiting c seq => some (failed (.exchange c seq))
    | _ => none
  | .waitFailed =>
    match s.pc with
    | .serving => some s.close
    | .waiting c _ => some (s.exchangeFailed c)
    | _ => none
  | .decide =>
    if s.pc = .leaving then
      if s.running then some s.close else some s.bye
    else none
  | .loopEnds => if s.pc = .serving ∧ s.running = false then some s.bye else none

/-- The worker from its start. -/
def system : Runs.System State Act := .ofStep (· = {}) step

/-! ## What is written -/

/-- A message that was sent whole, or of which nothing was written. -/
def Sent.clean (x : Sent) : Prop := x.whole = true ∨ x.written = []

instance (x : Sent) : Decidable x.clean := inferInstanceAs (Decidable (_ ∨ _))

/-- A message that was sent is its frame, one that was not is less. -/
def Sent.Framed (x : Sent) : Prop :=
  if x.whole then x.written = encodeMessage x.message ∧ encodeMessage x.message ≠ []
  else x.written <+: encodeMessage x.message ∧ x.written.length < (encodeMessage x.message).length

/-- The session is over, or may be. -/
def Pc.over : Pc → Bool
  | .offline | .leaving => true
  | _ => false

/-- The messages of a connection: only the last may be cut short. -/
structure Logged (sends : List Sent) : Prop where
  framed : ∀ x ∈ sends, x.Framed
  earlier : ∀ x ∈ sends.dropLast, x.clean

/-- The last message was not cut short. -/
def Clean (sends : List Sent) : Prop := ∀ x ∈ sends.getLast?, x.clean

instance (sends : List Sent) : Decidable (Clean sends) :=
  decidable_of_iff (sends.getLast?.all fun x => decide x.clean) (by
    unfold Clean
    cases sends.getLast? <;> simp)

/-- The worker does not decide on its `Bye` behind a message that was cut short. -/
def Tidy (s : State) (a : Act) : Prop :=
  a = .decide → s.running = false → Clean s.sends

/-- What holds in every state: nothing follows a message that was cut short. -/
structure State.Framed (s : State) : Prop where
  logged : Logged s.sends
  last : s.pc.over = false → Clean s.sends
  underWay : ∀ m n next, s.pc = .sending m n next → n < (encodeMessage m).length

/-- Every message was sent whole, or nothing of it, when the last was. -/
theorem Logged.clean {sends : List Sent} (h : Logged sends) (hlast : Clean sends) :
    ∀ x ∈ sends, x.clean := by
  intro x hx
  have hne := List.ne_nil_of_mem hx
  rw [← List.dropLast_concat_getLast hne] at hx
  rcases List.mem_append.mp hx with hx | hx
  · exact h.earlier x hx
  · rw [List.mem_singleton.mp hx]
    exact hlast _ (List.getLast?_eq_getLast_of_ne_nil hne)

/-- One more message, behind whole ones. -/
theorem Logged.concat {sends : List Sent} (h : Logged sends) (hlast : Clean sends) {x : Sent}
    (hx : x.Framed) : Logged (sends ++ [x]) := by
  refine ⟨fun y hy => ?_, fun y hy => ?_⟩
  · rcases List.mem_append.mp hy with hy | hy
    · exact h.framed y hy
    · exact List.mem_singleton.mp hy ▸ hx
  · rw [List.dropLast_concat] at hy
    exact h.clean hlast y hy

section Steps

variable {s : State}

/-- The worker goes somewhere without sending. -/
theorem Logged.goto (h : Logged s.sends) {pc : Pc} (hlast : pc.over = false → Clean s.sends)
    (hpc : ∀ m n next, pc ≠ .sending m n next) : State.Framed { s with pc := pc } :=
  ⟨h, hlast, fun m n next heq => absurd heq (hpc m n next)⟩

/-- To close the session sends nothing. -/
theorem Logged.close (h : Logged s.sends) : s.close.Framed := h.goto (by simp [Pc.over]) (by simp)

/-- Nor does an exchange that failed. -/
theorem Logged.exchangeFailed (h : Logged s.sends) (c : Caller) : (s.exchangeFailed c).Framed := by
  cases c with
  | handshake => exact h.close
  | serve => exact h.goto (by simp [Pc.over]) (by simp)

/-- Nor does a read that failed. -/
theorem Logged.readFailed (h : Logged s.sends) (place : Place) : (s.readFailed place).Framed := by
  cases place with
  | loop => exact h.goto (by simp [Pc.over]) (by simp)
  | exchange c seq => exact h.exchangeFailed c

/-- The session goes on behind a whole message only. -/
theorem Logged.dispatched (h : Logged s.sends) {ok : Bool} (hok : ok = true → Clean s.sends)
    (place : Place) : (s.dispatched ok place).Framed := by
  cases ok with
  | false =>
    cases place with
    | loop => exact h.close
    | exchange c seq => exact h.exchangeFailed c
  | true =>
    cases place with
    | loop => exact h.goto (fun _ => hok rfl) (by simp)
    | exchange c seq => exact h.goto (fun _ => hok rfl) (by simp)

/-- A call that returns true leaves whole messages only. -/
theorem Logged.returned (h : Logged s.sends) {ok : Bool} (hok : ok = true → Clean s.sends)
    (next : Next) : (s.returned ok next).Framed := by
  cases next with
  | request c seq =>
    cases ok with
    | false => exact h.exchangeFailed c
    | true => exact h.goto (fun _ => hok rfl) (by simp)
  | answer place result =>
    refine h.dispatched (fun hboth => hok ?_) place
    exact (Bool.and_eq_true_iff.mp hboth).1
  | refusal place => exact h.readFailed place
  | bye => exact h.close

/-- A message is sent behind whole messages. -/
theorem Logged.send (h : Logged s.sends) (hlast : Clean s.sends) (m : Message) (next : Next) :
    (s.send m next).Framed := by
  unfold State.send
  split
  · exact h.returned (fun hfalse => absurd hfalse (by simp)) next
  · rename_i hne
    refine ⟨h, fun _ => hlast, fun m' n next' heq => ?_⟩
    obtain ⟨rfl, rfl, rfl⟩ := Pc.sending.inj heq
    exact List.length_pos_iff.mpr hne

/-- A `SendAll` that returns.

**Proof sketch.** The send is the whole frame or a proper prefix of it. If it is whole the log stays
clean; if not, the call's failure is what `returned` asks for. -/
theorem Logged.sent (h : Logged s.sends) (hlast : Clean s.sends) {m : Message} {n : ℕ}
    {whole : Bool} (hn : if whole then n = (encodeMessage m).length ∧ 0 < n
      else n < (encodeMessage m).length) (next : Next) : (s.sent m n whole next).Framed := by
  have hx : Sent.Framed { message := m, written := (encodeMessage m).take n, whole } := by
    unfold Sent.Framed
    cases whole with
    | false =>
      simp only [Bool.false_eq_true, if_false] at hn ⊢
      exact ⟨List.take_prefix _ _, by rw [List.length_take]; omega⟩
    | true =>
      simp only [if_true] at hn ⊢
      obtain ⟨rfl, hpos⟩ := hn
      exact ⟨List.take_length, List.length_pos_iff.mp hpos⟩
  unfold State.sent
  refine Logged.returned (h.concat hlast hx) (fun hok => ?_) next
  intro x hx
  rw [List.getLast?_concat] at hx
  obtain rfl := Option.some.inj hx
  exact .inl hok

end Steps

/-- **Every step keeps the frames**, when no `Bye` is sent behind a cut message.

**Proof sketch.** By the step and the place of its thread. A message begins only behind clean sends,
its chunks leave the sends alone, and it is recorded when it is whole or given up. A send that fails
closes the session, and a `Bye` behind it is excluded (`htidy`). -/
theorem State.Framed.step {s s' : State} {a : Act} (h : s.Framed) (htidy : Tidy s a)
    (hs : step s a = some s') : s'.Framed := by
  cases a with
  | stop =>
    obtain rfl := Option.some.inj hs
    exact ⟨h.logged, h.last, h.underWay⟩
  | connect hello =>
    obtain ⟨⟨hpc, -⟩, hs⟩ := Option.ite_none_right_eq_some.mp hs
    have hnone : Logged [] := ⟨by simp, by simp⟩
    have hclean : Clean [] := by simp [Clean]
    cases hello with
    | none =>
      obtain rfl := Option.some.inj hs
      exact ⟨hnone, fun _ => hclean, fun m n next heq => by simp [hpc] at heq⟩
    | some payload =>
      obtain rfl := Option.some.inj hs
      exact Logged.send (s := { s with seq := 1, sends := [] }) hnone hclean _ _
  | request type payload =>
    obtain ⟨hpc, hs⟩ := Option.ite_none_right_eq_some.mp hs
    obtain rfl := Option.some.inj hs
    have hlast := h.last (by rw [hpc]; rfl)
    exact Logged.send (s := { s with seq := s.seq + 1 }) h.logged hlast _ _
  | turn t =>
    cases hpc : s.pc with
    | sending m n next =>
      have hn := h.underWay m n next hpc
      have hlast := h.last (by rw [hpc]; rfl)
      simp only [Transport.step, hpc] at hs
      cases t with
      | wrote k =>
        obtain ⟨⟨hpos, hle⟩, hs⟩ := Option.ite_none_right_eq_some.mp hs
        split at hs
        · rename_i hmore
          obtain rfl := Option.some.inj hs
          refine ⟨h.logged, fun _ => hlast, fun m' n' next' heq => ?_⟩
          obtain ⟨rfl, rfl, rfl⟩ := Pc.sending.inj heq
          exact hmore
        · obtain rfl := Option.some.inj hs
          exact h.logged.sent hlast (by rw [if_pos rfl]; omega) next
      | blocked =>
        obtain rfl := Option.some.inj hs
        exact h
      | gaveUp =>
        obtain rfl := Option.some.inj hs
        exact h.logged.sent hlast (by simpa using hn) next
    | offline | serving | waiting | leaving => simp [Transport.step, hpc] at hs
  | arrived m ok handled =>
    have hdispatch : ∀ place, Clean s.sends → (s.dispatch place handled).Framed := by
      intro place hlast
      cases handled with
      | answer m ok => exact h.logged.send hlast _ _
      | bye => exact h.logged.dispatched (fun hfalse => absurd hfalse (by simp)) place
    cases hpc : s.pc with
    | serving =>
      simp only [Transport.step, hpc] at hs
      split at hs
      · obtain rfl := Option.some.inj hs
        exact h
      · obtain rfl := Option.some.inj hs
        exact hdispatch _ (h.last (by rw [hpc]; rfl))
    | waiting c seq =>
      have hlast := h.last (by rw [hpc]; rfl)
      simp only [Transport.step, hpc] at hs
      split at hs
      · split at hs
        · obtain rfl := Option.some.inj hs
          unfold State.replied
          split
          · exact h.logged.goto (fun _ => hlast) (by simp)
          · exact h.logged.exchangeFailed c
        · obtain rfl := Option.some.inj hs
          exact h
      · obtain rfl := Option.some.inj hs
        exact hdispatch _ hlast
    | offline | sending | leaving => simp [Transport.step, hpc] at hs
  | unread refusal =>
    have hfailed : ∀ place, Clean s.sends → State.Framed (match refusal with
        | none => s.readFailed place
        | some payload =>
          s.send ⟨⟨0, flagResponse ||| flagError, 0⟩, payload⟩ (.refusal place)) := by
      intro place hlast
      cases refusal with
      | none => exact h.logged.readFailed place
      | some payload => exact h.logged.send hlast _ _
    cases hpc : s.pc with
    | serving =>
      simp only [Transport.step, hpc] at hs
      obtain rfl := Option.some.inj hs
      exact hfailed _ (h.last (by rw [hpc]; rfl))
    | waiting c seq =>
      simp only [Transport.step, hpc] at hs
      obtain rfl := Option.some.inj hs
      exact hfailed _ (h.last (by rw [hpc]; rfl))
    | offline | sending | leaving => simp [Transport.step, hpc] at hs
  | waitFailed =>
    cases hpc : s.pc with
    | serving =>
      simp only [Transport.step, hpc] at hs
      obtain rfl := Option.some.inj hs
      exact h.logged.close
    | waiting c seq =>
      simp only [Transport.step, hpc] at hs
      obtain rfl := Option.some.inj hs
      exact h.logged.exchangeFailed c
    | offline | sending | leaving => simp [Transport.step, hpc] at hs
  | decide =>
    obtain ⟨hpc, hs⟩ := Option.ite_none_right_eq_some.mp hs
    cases hrunning : s.running with
    | true =>
      rw [hrunning, if_pos rfl] at hs
      obtain rfl := Option.some.inj hs
      exact h.logged.close
    | false =>
      rw [hrunning, if_neg (by simp)] at hs
      obtain rfl := Option.some.inj hs
      exact Logged.send (s := { s with seq := s.seq + 1 }) h.logged (htidy rfl hrunning) _ _
  | loopEnds =>
    obtain ⟨⟨hpc, -⟩, hs⟩ := Option.ite_none_right_eq_some.mp hs
    obtain rfl := Option.some.inj hs
    have hlast := h.last (by rw [hpc]; rfl)
    exact Logged.send (s := { s with seq := s.seq + 1 }) h.logged hlast _ _

/-! ## What is read -/

/-- A message that was framed fits its frame. -/
theorem fits_of_encodeMessage {m : Message} (h : encodeMessage m ≠ []) :
    m.payload.length ≤ maxPayloadBytes := by
  unfold encodeMessage at h
  split at h
  · exact absurd rfl h
  · omega

/-- The beginning of a frame is not read as a message, nor as a fault. -/
theorem readMessage_prefix {m : Message} {p : Bytes} (hp : p <+: encodeMessage m)
    (hshort : p.length < (encodeMessage m).length) {chunks : List Bytes}
    (hbytes : chunks.flatten = p) :
    (∀ m', (readMessage chunks).outcome ≠ .message m') ∧
      (readMessage chunks).outcome.answer = none := by
  have hfits : m.payload.length ≤ maxPayloadBytes := by
    refine fits_of_encodeMessage fun hnil => ?_
    rw [hnil] at hshort
    exact absurd hshort (Nat.not_lt_zero _)
  obtain ⟨hlength, hgood⟩ := toNat_length hfits
  obtain ⟨t, hframe⟩ := hp
  rw [encodeMessage_eq hfits] at hframe hshort
  have htook := took_readMessage chunks
  generalize readMessage chunks = r at htook ⊢
  cases htook with
  | message length m' left hgood' hlen hbytes' hnonempty =>
    -- all of the frame would be there
    rw [← hbytes, hbytes', List.append_assoc] at hframe
    obtain ⟨rfl, -⟩ := put_u32_append_inj hframe
    rw [← hbytes, hbytes'] at hshort
    rw [hlength] at hlen
    simp only [List.length_append, length_put_header, Layout.put_u32, Layout.length_putLE]
      at hshort
    omega
  | outOfBounds length left hbad hbytes' =>
    rw [← hbytes, hbytes', List.append_assoc] at hframe
    obtain ⟨rfl, -⟩ := put_u32_append_inj hframe
    exact absurd (by rw [hlength]; exact hgood) hbad
  | noLength left hend => exact ⟨by simp, rfl⟩
  | noBody length rest left hgood' hbytes' hend => exact ⟨by simp, rfl⟩

/-- A stream of framed messages, the last of which is cut short, is read as those before it.

**Proof sketch.** By recursion on the messages: each is read from the front and leaves a stream of
the same shape, until only the part of the last is left, of which nothing is read. -/
theorem readStream_prefix {m : Message} {p : Bytes} (hp : p <+: encodeMessage m)
    (hshort : p.length < (encodeMessage m).length) : ∀ (msgs : List Message) {chunks : List Bytes},
      (∀ m ∈ msgs, m.payload.length ≤ maxPayloadBytes) → (∀ chunk ∈ chunks, chunk ≠ []) →
      chunks.flatten = msgs.flatMap encodeMessage ++ p →
      (readStream chunks).1 = msgs ∧ (readStream chunks).2.outcome.answer = none
  | [], chunks, _, _, hbytes => by
    obtain ⟨hnone, hanswer⟩ := readMessage_prefix hp hshort (by simpa using hbytes)
    rw [readStream]
    split
    · rename_i m' hread
      exact absurd hread (hnone m')
    · exact ⟨rfl, hanswer⟩
  | m' :: msgs, chunks, hfit, hne, hbytes => by
    obtain ⟨hm, hmsgs⟩ := List.forall_mem_cons.mp hfit
    rw [List.flatMap_cons, List.append_assoc] at hbytes
    obtain ⟨hread, hleft, hneLeft⟩ := readMessage_encodeMessage hm hne hbytes
    obtain ⟨hmore, hanswer⟩ := readStream_prefix hp hshort msgs hmsgs hneLeft hleft
    rw [readStream_cons hread]
    exact ⟨by rw [hmore], hanswer⟩

/-- The messages that were sent whole, oldest first. -/
def State.messages (s : State) : List Message := (s.sends.filter (·.whole)).map (·.message)

/-- What is written of clean messages is the frames of those sent whole.

**Proof sketch.** By induction on the sends: a whole one adds its frame on both sides, and a clean
one that is not whole has written nothing. -/
theorem flatMap_written {sends : List Sent} (hframed : ∀ x ∈ sends, x.Framed)
    (hclean : ∀ x ∈ sends, x.clean) : sends.flatMap (·.written) =
      ((sends.filter (·.whole)).map (·.message)).flatMap encodeMessage := by
  induction sends with
  | nil => rfl
  | cons x sends ih =>
    obtain ⟨hx, hframed⟩ := List.forall_mem_cons.mp hframed
    obtain ⟨hxclean, hclean⟩ := List.forall_mem_cons.mp hclean
    unfold Sent.Framed at hx
    cases hwhole : x.whole with
    | true =>
      rw [hwhole, if_pos rfl] at hx
      rw [List.filter_cons_of_pos hwhole, List.map_cons, List.flatMap_cons, List.flatMap_cons,
        ih hframed hclean, hx.1]
    | false =>
      rw [List.filter_cons_of_neg (by simp [hwhole]), List.flatMap_cons, ih hframed hclean,
        hxclean.resolve_left (by simp [hwhole]), List.nil_append]

/-- What was written is frames, and at its end maybe less than one. -/
theorem State.Framed.wire {s : State} (h : s.Framed) : ∃ p m,
    s.wire = s.messages.flatMap encodeMessage ++ p ∧ p <+: encodeMessage m ∧
      p.length < (encodeMessage m).length := by
  have hsome : (0 : ℕ) < (encodeMessage {}).length := by decide
  by_cases hlast : Clean s.sends
  · have hwritten := flatMap_written h.logged.framed (h.logged.clean hlast)
    unfold State.wire State.messages
    rw [hwritten]
    unfold State.underWay
    cases hpc : s.pc with
    | sending m n next =>
      have hn := h.underWay m n next hpc
      exact ⟨_, m, rfl, List.take_prefix _ _, by rw [List.length_take]; omega⟩
    | offline | serving | waiting | leaving => exact ⟨[], {}, rfl, List.nil_prefix, hsome⟩
  · -- the last message was cut, and the session is over
    have hover : s.pc.over = true := by
      cases hpc : s.pc.over with
      | true => rfl
      | false => exact absurd (h.last hpc) hlast
    have hnothing : s.underWay = [] := by
      unfold State.underWay
      cases hpc : s.pc <;> simp_all [Pc.over]
    obtain ⟨x, hx, hcut⟩ : ∃ x, s.sends.getLast? = some x ∧ ¬ x.clean := by
      unfold Clean at hlast
      push Not at hlast
      exact hlast
    obtain ⟨before, hsplit⟩ := List.getLast?_eq_some_iff.mp hx
    have hearlier := h.logged.earlier
    rw [hsplit, List.dropLast_concat] at hearlier
    have hwhole : x.whole = false := by
      by_contra hne
      exact hcut (.inl (by simpa using hne))
    have hframed := h.logged.framed x (by rw [hsplit]; simp)
    unfold Sent.Framed at hframed
    rw [hwhole, if_neg (by simp)] at hframed
    have hwritten := flatMap_written (fun y hy => h.logged.framed y (by
      rw [hsplit]
      exact List.mem_append_left _ hy)) hearlier
    refine ⟨x.written, x.message, ?_, hframed⟩
    unfold State.wire State.messages
    rw [hnothing, List.append_nil, hsplit, List.flatMap_append, hwritten, List.filter_append]
    simp [hwhole]

/-- What holds in every state does, in a run in which no `Bye` is sent behind a cut message. -/
theorem framed_of_reaches {s : State} (h : system.Reaches Tidy s) : s.Framed := by
  refine h.invariant ?_ fun s a s' hf htidy hs => hf.step htidy hs
  rintro s rfl
  exact ⟨⟨by simp, by simp⟩, fun _ => by simp [Clean], by simp⟩

/-- A message that is under way follows no message that was cut short. -/
theorem State.Framed.clean_of_sending {s : State} (h : s.Framed) {m : Message} {n : ℕ}
    {next : Next} (hpc : s.pc = .sending m n next) : ∀ x ∈ s.sends, x.clean :=
  h.logged.clean (h.last (by rw [hpc]; rfl))

/-- The messages that were sent have payloads that fit. -/
theorem State.Framed.fits {s : State} (h : s.Framed) :
    ∀ m ∈ s.messages, m.payload.length ≤ maxPayloadBytes := by
  intro m hm
  obtain ⟨x, hx, rfl⟩ := List.mem_map.mp hm
  obtain ⟨hx, hwhole⟩ := List.mem_filter.mp hx
  have hframed := h.logged.framed x hx
  unfold Sent.Framed at hframed
  rw [if_pos hwhole] at hframed
  exact fits_of_encodeMessage hframed.2

/-- **The daemon reads the messages that were sent.** In every run of the worker in which it does
not send a `Bye` behind a message that was cut short, in every state, and however the bytes of the
connection are cut on their way: what is read off them is exactly the messages whose `SendAll`
returned true, in order, and no length or header is malformed. Nothing is written behind a cut
message: of the messages of a connection every one but the last was sent whole or not at all, and so
was every one before a message that is under way.

**Proof sketch.** A `SendAll` that returns false ends the session, so nothing but a `Bye` can follow
what it wrote of its frame (`State.Framed`). The frames before it are read one after another, and
the beginning of a frame is no message (`readStream_prefix`). -/
theorem read_as_sent {s : State} (h : system.Reaches Tidy s) {chunks : List Bytes}
    (hne : ∀ chunk ∈ chunks, chunk ≠ []) (hbytes : chunks.flatten = s.wire) :
    (readStream chunks).1 = s.messages ∧ (readStream chunks).2.outcome.answer = none ∧
      (∀ x ∈ s.sends.dropLast, x.whole = true ∨ x.written = []) ∧
      ∀ m n next, s.pc = .sending m n next →
        ∀ x ∈ s.sends, x.whole = true ∨ x.written = [] := by
  have hframed := framed_of_reaches h
  obtain ⟨p, m, hwire, hp, hshort⟩ := hframed.wire
  obtain ⟨hread, hanswer⟩ :=
    readStream_prefix hp hshort s.messages hframed.fits hne (hbytes.trans hwire)
  exact ⟨hread, hanswer, hframed.logged.earlier, fun m n next hpc => hframed.clean_of_sending hpc⟩

/-- A session that asks for one thing, and is told to stop when that is on its way. -/
def stoppedRun (rest : List Act) : List Act :=
  [.connect (some []), .turn (.wrote 5), .turn .blocked, .turn (.wrote 7),
    .arrived ⟨⟨typeHelloAck, flagResponse, 1⟩, []⟩ true .bye,
    .request typeGame [1, 2], .turn (.wrote 13), .stop] ++ rest

instance (s : State) (a : Act) : Decidable (Tidy s a) := inferInstanceAs (Decidable (_ → _ → _))

/-- The request is written whole, and the `Bye` behind it. -/
theorem read_as_sent_stoppedRun : ∃ s,
    Runs.runOf step {} (stoppedRun [.turn (.wrote 1), .waitFailed, .decide, .turn (.wrote 30)]) =
      some s ∧
      (readStream [s.wire]).1.map (·.header.type) = [typeHello, typeGame, typeBye] ∧
      (readStream [s.wire]).2.outcome.answer = none := by
  have hrun : ((Runs.runOf step {}
      (stoppedRun [.turn (.wrote 1), .waitFailed, .decide, .turn (.wrote 30)])).any (fun s =>
        decide (s.messages.map (·.header.type) = [typeHello, typeGame, typeBye] ∧ s.wire ≠ []))
      && Runs.holdsAlong step (fun s a => decide (Tidy s a)) {}
        (stoppedRun [.turn (.wrote 1), .waitFailed, .decide, .turn (.wrote 30)])) = true := by
    decide +kernel
  obtain ⟨hrun, halong⟩ := Bool.and_eq_true_iff.mp hrun
  obtain ⟨s, hs, hchecks⟩ := (Option.any_eq_true _ _).mp hrun
  obtain ⟨htypes, hwire⟩ := of_decide_eq_true hchecks
  have hreach : system.Reaches Tidy s :=
    Runs.System.Reaches.runOf (fun _ _ => of_decide_eq_true) _ (.init rfl) halong hs
  have hchunk : ∀ c ∈ [s.wire], c ≠ [] := by simpa using hwire
  obtain ⟨hread, hanswer, -, -⟩ := read_as_sent hreach hchunk (by simp)
  exact ⟨s, hs, by rw [hread, htypes], hanswer⟩

/-- **A `Bye` behind a cut message is read into it**: the daemon reads a request that the worker did
not make. -/
theorem cut_bye : ∃ s, system.Reachable s ∧
    ∃ m ∈ (readStream [s.wire]).1, m ∉ s.sends.map (·.message) := by
  have hrun : (Runs.runOf step {} (stoppedRun [.turn .gaveUp, .decide, .turn (.wrote 30)])).any
      (fun s => decide (
        (readMessage [s.wire]).outcome = .message ⟨⟨typeHello, 0, 1⟩, []⟩ ∧
        (readMessage (readMessage [s.wire]).left).outcome =
          .message ⟨⟨typeGame, 0, 2⟩, [1, 26]⟩ ∧
        ⟨⟨typeGame, 0, 2⟩, [1, 26]⟩ ∉ s.sends.map (·.message))) = true := by
    decide +kernel
  obtain ⟨s, hs, hchecks⟩ := (Option.any_eq_true _ _).mp hrun
  obtain ⟨hfirst, hsecond, hnot⟩ := of_decide_eq_true hchecks
  refine ⟨s, Runs.reachable_of_runOf rfl hs, _, ?_, hnot⟩
  rw [readStream_cons hfirst, readStream_cons hsecond]
  simp

end Transport
