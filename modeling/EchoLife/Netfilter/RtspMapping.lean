import EchoLife.Base.Run
import EchoLife.Netfilter.Expectation
import Mathlib

/-!
The ports that the RTSP helper maps for its clients. A `SETUP` that leaves through a translated
control connection announces a port, or a pair for RTP and RTCP; the helper registers expectations
at free outside ports, with the client's own port saved in them, and puts the outside ports into
the message. A reply that quotes them is to be given the client's ports again, which are looked up
in the expectations that are left and in the connections made from the others.
-/

namespace EchoLife.Netfilter.RtspMapping

open Expectation List Option Run

/-! ### Outbound: expectations and the ports they get -/

/-- A control connection: the server's address, the gateway's outside address, and whether the LAN
side has opened it. -/
structure Control where
  peer : Nat
  outside : Nat
  lanInitiated : Bool

section
variable (maxExpected : Nat) (ctl : Control) (ct rtp rtcp : Nat)

def udpTuple (port : Nat) : ConntrackTuple :=
  { l3num := 2, protonum := 17, src := ctl.peer, srcPort := 0, dst := ctl.outside
    dstPort := port }

def udpMask : ConntrackTuple :=
  { l3num := 0xFFFF, protonum := 0xFF, src := 0xFFFFFFFF, srcPort := 0
    dst := 0xFFFFFFFF, dstPort := 0xFFFF }

/-- What `expect_rtsp_channel` and NAT make of the client's port `saved`, tried at the
outside port. The id is given when it is registered. -/
def channelExpect (saved port : Nat) : ConntrackExpect :=
  ⟨0, ct, udpTuple ctl port, udpMask, saved, false⟩

/-- The loop over the outside ports. Its counter has 16 bits and 0 ends it, which it
comes to within 65536 rounds. -/
def tryPorts (attempt : Nat → Expectations → Bool × Expectations) (stride : Nat) :
    Nat → Nat → Expectations → Option Nat × Expectations
  | 0, _, t => (none, t)
  | rounds + 1, port, t =>
    if port = 0 then (none, t)
    else
      match attempt port t with
      | (true, t') => (some port, t')
      | (false, t') => tryPorts attempt stride rounds ((port + stride) % 65536) t'

/-- One round for a pair: the expectation of RTP is given up if that of RTCP fails. -/
def relatePair (port : Nat) (t : Expectations) : Bool × Expectations :=
  match conntrackExpectRelated maxExpected t (channelExpect ctl ct rtp port) with
  | (false, t₁) => (false, t₁)
  | (true, t₁) =>
    match conntrackExpectRelated maxExpected t₁
        (channelExpect ctl ct rtcp ((port + 1) % 65536)) with
    | (true, t₂) => (true, t₂)
    | (false, t₂) =>
      (false, conntrackUnexpectRelated t₂ (channelExpect ctl ct rtp port))

/-- The expectation of the connection that was set up for the client's port before. -/
def savedExpect (t : Expectations) (ct port : Nat) : Option ConntrackExpect :=
  t.list.find? (fun e => e.master == ct && e.saved == port)

/-- The outside port that is written with the one after it, or none if the message stays as it is
or is dropped. -/
def natRtspChannel2 (mangles : Bool) (t : Expectations) : Option Nat × Expectations :=
  let found :=
    match savedExpect t ct rtp with
    | some exp =>
      let t₁ := (conntrackExpectRelated maxExpected t
        (channelExpect ctl ct rtp exp.tuple.dstPort)).2
      (some exp.tuple.dstPort, (conntrackExpectRelated maxExpected t₁
        (channelExpect ctl ct rtcp ((exp.tuple.dstPort + 1) % 65536))).2)
    | none =>
      tryPorts (relatePair maxExpected ctl ct rtp rtcp) 2 65536 (rtp / 2 * 2) t
  match found with
  | (none, t') => (none, t')
  | (some port, t') =>
    if mangles then (some port, t')
    else
      (none, conntrackUnexpectRelated
        (conntrackUnexpectRelated t' (channelExpect ctl ct rtp port))
        (channelExpect ctl ct rtcp ((port + 1) % 65536)))

def natRtspChannel (mangles : Bool) (t : Expectations) : Option Nat × Expectations :=
  let found :=
    match savedExpect t ct rtp with
    | some exp =>
      (some exp.tuple.dstPort, (conntrackExpectRelated maxExpected t
        (channelExpect ctl ct rtp exp.tuple.dstPort)).2)
    | none =>
      tryPorts (fun port t =>
        conntrackExpectRelated maxExpected t (channelExpect ctl ct rtp port)) 1 65536 rtp t
  match found with
  | (none, t') => (none, t')
  | (some port, t') =>
    if mangles then (some port, t')
    else (none, conntrackUnexpectRelated t' (channelExpect ctl ct rtp port))

/-! ### Inbound: the way back -/

structure Ports where
  src : Nat
  dst : Nat
  deriving DecidableEq

/-- A connection made from the expectation with the id: the ports of its two tuples. Its original
direction is that of the packet that met the expectation. -/
structure Child where
  master : Nat
  exp : Nat
  original : Ports
  reply : Ports
  deriving DecidableEq

/-- `child->tuplehash[dir]`. -/
def Child.tuplehash (child : Child) (reply : Bool) : Ports :=
  if reply then child.reply else child.original

/-- A pair that a client announced and the helper rewrote, its outside port, and the id of the
expectation registered there. -/
structure Record where
  ct : Nat
  rtp : Nat
  rtcp : Nat
  port : Nat
  exp : Nat
  deriving DecidableEq

structure State where
  expects : Expectations
  /-- All `derived_connections`, the newest first. -/
  children : List Child
  records : List Record

def State.empty : State :=
  ⟨.empty, [], []⟩

def expectAt (t : Expectations) (ct port : Nat) : Option ConntrackExpect :=
  t.list.find? (fun e => e.master == ct && e.tuple.dstPort == port)

/-- The first connection made for `ct` that has the port where a reply that comes in
through the direction is looked up. -/
def childAt (s : State) (reply : Bool) (ct port : Nat) : Option Child :=
  s.children.find? (fun child =>
    child.master == ct && (child.tuplehash reply).dst == port)

/-- The source port of such a connection in the other direction. A reply from the WAN runs in the
reply direction of a control connection that the LAN side opened. -/
def childSource (s : State) (ct port : Nat) : Nat :=
  match childAt s ctl.lanInitiated ct port with
  | some child => (child.tuplehash (!ctl.lanInitiated)).src
  | none => 0

def lookupMappingPort (s : State) (ct port : Nat) : Nat :=
  match expectAt s.expects ct port with
  | some exp => exp.saved
  | none => childSource ctl s ct port

/-- `nat_rtsp_modify_port2`: the pair that the reply quotes when it is delivered. -/
def natRtspModifyPort2 (s : State) (ct rtpport rtcpport : Nat) : Nat × Nat :=
  if lookupMappingPort ctl s ct rtpport = 0 then (rtpport, rtcpport)
  else
    (lookupMappingPort ctl s ct rtpport, (lookupMappingPort ctl s ct rtpport + 1) % 65536)

/-! ### Runs -/

/-- The ports of a message: those with a port of 0 are refused before. -/
structure Announced where
  rtp : Nat
  rtcp : Nat
  rtp_pos : 0 < rtp
  rtp_lt : rtp < 65536
  rtcp_pos : 0 < rtcp
  rtcp_lt : rtcp < 65536

structure Env where
  maxExpected : Nat
  /-- The translated control connections of the helper. -/
  control : Nat → Option Control

inductive Event where
  /-- A `SETUP` with a pair of ports. -/
  | setup (ct : Nat) (ports : Announced) (mangles : Bool)
  /-- A `SETUP` with the first port alone. -/
  | single (ct : Nat) (ports : Announced) (mangles : Bool)
  /-- An expectation of a connection that has another helper. -/
  | foreign (maxExpected : Nat) (expect : ConntrackExpect)
  /-- An expectation is given up: its time is over, or its owner takes it out. -/
  | lapse (id : Nat)
  /-- The first packet of a connection; NAT gives its reply tuple the port. -/
  | arrive (tuple : ConntrackTuple) (confirmed : Nat → Bool) (port : Nat)
  /-- A connection that was made from an expectation is destroyed. -/
  | destroy (index : Nat)

def record (ports : Announced) (port : Nat) (t : Expectations) : Record :=
  ⟨ct, ports.rtp, ports.rtcp, port, ((expectAt t ct port).map (·.id)).getD 0⟩

def step (env : Env) : Event → State → State
  | .setup ct ports mangles, s =>
    match env.control ct with
    | none => s
    | some ctl =>
      match natRtspChannel2 env.maxExpected ctl ct ports.rtp ports.rtcp mangles s.expects with
      | (none, t) => { s with expects := t }
      | (some port, t) =>
        { s with expects := t, records := record ct ports port t :: s.records }
  | .single ct ports mangles, s =>
    match env.control ct with
    | none => s
    | some ctl =>
      { s with
        expects := (natRtspChannel env.maxExpected ctl ct ports.rtp mangles s.expects).2 }
  | .foreign maxExpected expect, s =>
    if (env.control expect.master).isSome then s
    else { s with expects := (conntrackExpectRelated maxExpected s.expects expect).2 }
  | .lapse id, s => { s with expects := expectationTimedOut s.expects id }
  | .arrive tuple confirmed port, s =>
    match findExpectation s.expects tuple confirmed with
    | none => s
    | some (exp, t) =>
      { s with
        expects := t
        -- `nf_nat_follow_master` sends the packet on to the saved port
        children := ⟨exp.master, exp.id, ⟨tuple.srcPort, tuple.dstPort⟩,
          ⟨exp.saved, port⟩⟩ :: s.children }
  | .destroy index, s => { s with children := s.children.eraseIdx index }

/-! ### What the helper registers -/

/-- An expectation of the helper for the control connection. -/
structure ChannelOf (ctl : Control) (ct : Nat) (e : ConntrackExpect) : Prop where
  master : e.master = ct
  tuple : e.tuple = udpTuple ctl e.tuple.dstPort
  mask : e.mask = udpMask
  saved_pos : 0 < e.saved

theorem channelExpect_channelOf (port : Nat) {saved : Nat} (hsaved : 0 < saved) (id : Nat) :
    ChannelOf ctl ct { channelExpect ctl ct saved port with id := id } :=
  ⟨rfl, rfl, rfl, hsaved⟩

end

variable {New : ConntrackExpect → Prop} {t : Expectations}

theorem tryPorts_grows {attempt : Nat → Expectations → Bool × Expectations}
    (hattempt : ∀ port t, Grows New t (attempt port t).2) (stride rounds port : Nat)
    (t : Expectations) : Grows New t (tryPorts attempt stride rounds port t).2 := by
  induction rounds generalizing port t with
  | zero => exact .refl t
  | succ rounds ih =>
    have hround := hattempt port t
    unfold tryPorts
    split
    · exact .refl t
    cases htry : attempt port t with
    | mk accepted t' =>
      rw [htry] at hround
      cases accepted with
      | true => exact hround
      | false => exact hround.trans (ih _ t')

section
variable (maxExpected : Nat) (ctl : Control) (ct : Nat)

private theorem relatePair_grows {rtp rtcp : Nat} (hrtp : 0 < rtp) (hrtcp : 0 < rtcp) (port : Nat)
    (t : Expectations) :
    Grows (ChannelOf ctl ct) t (relatePair maxExpected ctl ct rtp rtcp port t).2 := by
  have hfirst := Grows.related maxExpected t (channelExpect_channelOf ctl ct port hrtp)
  unfold relatePair
  cases h₁ : conntrackExpectRelated maxExpected t (channelExpect ctl ct rtp port) with
  | mk accepted t₁ =>
    rw [h₁] at hfirst
    cases accepted with
    | false => exact hfirst
    | true =>
      have hsecond := Grows.related maxExpected t₁
        (channelExpect_channelOf ctl ct ((port + 1) % 65536) hrtcp)
      dsimp only
      cases h₂ : conntrackExpectRelated maxExpected t₁
          (channelExpect ctl ct rtcp ((port + 1) % 65536)) with
      | mk accepted t₂ =>
        rw [h₂] at hsecond
        cases accepted with
        | true => exact hfirst.trans hsecond
        | false => exact (hfirst.trans hsecond).trans (.unexpect t₂ _)

private theorem natRtspChannel2_grows {rtp rtcp : Nat} (hrtp : 0 < rtp) (hrtcp : 0 < rtcp)
    (mangles : Bool) (t : Expectations) :
    Grows (ChannelOf ctl ct) t (natRtspChannel2 maxExpected ctl ct rtp rtcp mangles t).2 := by
  unfold natRtspChannel2
  extract_lets found
  have hfound : Grows (ChannelOf ctl ct) t found.2 := by
    subst found
    cases savedExpect t ct rtp with
    | some exp =>
      exact (Grows.related maxExpected t (channelExpect_channelOf ctl ct _ hrtp)).trans
        (Grows.related maxExpected _ (channelExpect_channelOf ctl ct _ hrtcp))
    | none =>
      exact tryPorts_grows (relatePair_grows maxExpected ctl ct hrtp hrtcp) 2 _ _ t
  obtain ⟨port, t'⟩ := found
  cases port with
  | none => exact hfound
  | some port =>
    cases mangles with
    | true => exact hfound
    | false => exact (hfound.trans (.unexpect t' _)).trans (.unexpect _ _)

theorem natRtspChannel_grows {rtp : Nat} (hrtp : 0 < rtp) (mangles : Bool) (t : Expectations) :
    Grows (ChannelOf ctl ct) t (natRtspChannel maxExpected ctl ct rtp mangles t).2 := by
  unfold natRtspChannel
  extract_lets found
  have hfound : Grows (ChannelOf ctl ct) t found.2 := by
    subst found
    cases savedExpect t ct rtp with
    | some exp =>
      exact Grows.related maxExpected t (channelExpect_channelOf ctl ct _ hrtp)
    | none =>
      refine tryPorts_grows (fun port t => ?_) 1 _ _ t
      exact Grows.related maxExpected t (channelExpect_channelOf ctl ct port hrtp)
  obtain ⟨port, t'⟩ := found
  cases port with
  | none => exact hfound
  | some port =>
    cases mangles with
    | true => exact hfound
    | false => exact hfound.trans (.unexpect t' _)

end

/-! ### What holds in every run -/

/-- Expectations of a control connection are the helper's own, and the id in a record names the
expectation at its port as long as it is there. -/
structure Consistent (env : Env) (s : State) : Prop where
  sound : s.expects.Sound
  channel : ∀ e ∈ s.expects.list, ∀ ctl, env.control e.master = some ctl → ChannelOf ctl e.master e
  announced : ∀ r ∈ s.records, 0 < r.rtp
  given : ∀ r ∈ s.records, r.exp ≤ s.expects.nextId
  named : ∀ r ∈ s.records, ∀ e ∈ s.expects.list, e.id = r.exp →
    e.master = r.ct ∧ e.tuple.dstPort = r.port

/-- The expectations that a step of the environment may add. -/
def Admissible (env : Env) (e : ConntrackExpect) : Prop :=
  ∀ ctl, env.control e.master = some ctl → ChannelOf ctl e.master e

variable {e : ConntrackExpect} {env : Env} {s : State} {ctl : Control} {r : Record}

theorem ChannelOf.admissible {ct : Nat}
    (hcontrol : env.control ct = some ctl) (h : ChannelOf ctl ct e) : Admissible env e := by
  intro ctl' hctl
  obtain rfl := h.master
  rw [hcontrol, some_inj] at hctl
  exact hctl ▸ h

theorem Consistent.grow (h : Consistent env s) (hgrows : Grows New s.expects t)
    (hnew : ∀ e, New e → Admissible env e) : Consistent env { s with expects := t } where
  sound := hgrows.sound h.sound
  channel e he ctl hctl := by
    rcases hgrows.mem e he with hold | ⟨_, hlate⟩
    · exact h.channel e hold ctl hctl
    · exact hnew e hlate ctl hctl
  announced := h.announced
  given r hr := (h.given r hr).trans hgrows.next
  named r hr e he hid := by
    have hgiven : e.id ≤ s.expects.nextId := hid ▸ h.given r hr
    exact h.named r hr e (hgrows.mem_of_id he hgiven) hid

theorem expectAt_mem {ct port : Nat} (h : expectAt t ct port = some e) :
    e ∈ t.list ∧ e.master = ct ∧ e.tuple.dstPort = port := by
  have hcond := find?_some h
  simp only [Bool.and_eq_true, beq_iff_eq] at hcond
  exact ⟨mem_of_find?_eq_some h, hcond⟩

theorem Consistent.record (h : Consistent env s) (ct : Nat) (ports : Announced) (port : Nat) :
    Consistent env { s with records := record ct ports port s.expects :: s.records } := by
  refine { h with announced := ?_, given := ?_, named := ?_ }
  · exact forall_mem_cons.mpr ⟨ports.rtp_pos, h.announced⟩
  · refine forall_mem_cons.mpr ⟨?_, h.given⟩
    cases hat : expectAt s.expects ct port with
    | none => simp [RtspMapping.record, hat]
    | some e =>
      simpa [RtspMapping.record, hat] using (h.sound.given e (expectAt_mem hat).1).2
  · intro r hr e he hid
    rcases mem_cons.mp hr with rfl | hrest
    · cases hat : expectAt s.expects ct port with
      | none =>
        have hpos := (h.sound.given e he).1
        simp [RtspMapping.record, hat] at hid
        omega
      | some found =>
        obtain ⟨hmem, hmaster, hport⟩ := expectAt_mem hat
        simp only [RtspMapping.record, hat, map_some, getD_some] at hid
        obtain rfl := h.sound.eq_of_id he hmem hid
        exact ⟨hmaster, hport⟩
    · exact h.named r hrest e he hid

theorem Consistent.step (h : Consistent env s) (event : Event) :
    Consistent env (step env event s) := by
  cases event with
  | setup ct ports mangles =>
    simp only [RtspMapping.step]
    cases hcontrol : env.control ct with
    | none => exact h
    | some ctl =>
      have hgrows := natRtspChannel2_grows env.maxExpected ctl ct ports.rtp_pos
        ports.rtcp_pos mangles s.expects
      have hnew := fun e (he : ChannelOf ctl ct e) => he.admissible hcontrol
      dsimp only
      cases hchannel : natRtspChannel2 env.maxExpected ctl ct ports.rtp ports.rtcp
          mangles s.expects with
      | mk port t =>
        rw [hchannel] at hgrows
        cases port with
        | none => exact h.grow hgrows hnew
        | some port => exact (h.grow hgrows hnew).record ct ports port
  | single ct ports mangles =>
    simp only [RtspMapping.step]
    cases hcontrol : env.control ct with
    | none => exact h
    | some ctl =>
      have hgrows := natRtspChannel_grows env.maxExpected ctl ct ports.rtp_pos mangles s.expects
      exact h.grow hgrows (fun e he => he.admissible hcontrol)
  | foreign maxExpected expect =>
    simp only [RtspMapping.step]
    split
    · exact h
    rename_i hforeign
    have hnone : env.control expect.master = none := by
      simpa using hforeign
    have hgrows : Grows (Admissible env) s.expects
        (conntrackExpectRelated maxExpected s.expects expect).2 := by
      refine Grows.related maxExpected s.expects ?_
      intro id ctl hctl
      rw [hnone] at hctl
      cases hctl
    exact h.grow hgrows (fun _ he => he)
  | lapse id =>
    have hgrows : Grows (fun _ => False) s.expects (expectationTimedOut s.expects id) :=
      .timedOut s.expects id
    exact h.grow hgrows (fun _ he => he.elim)
  | arrive tuple confirmed port =>
    simp only [RtspMapping.step]
    cases hfind : findExpectation s.expects tuple confirmed with
    | none => exact h
    | some found =>
      obtain ⟨exp, t⟩ := found
      have hgrows : Grows (fun _ => False) s.expects t := by
        rcases (findExpectation_cases hfind).2.2 with rfl | rfl
        · exact .refl _
        · exact .timedOut _ _
      exact { h.grow hgrows (fun _ he => he.elim) with }
  | destroy index => exact { h with }

private theorem consistent_empty (env : Env) : Consistent env .empty :=
  ⟨sound_empty, by simp [State.empty, Expectations.empty],
    by simp [State.empty], by simp [State.empty], by simp [State.empty]⟩

private theorem consistent_run (env : Env) (events : List Event) :
    Consistent env (run (step env) events .empty) :=
  run_invariant (fun event _ _ h => h.step event) (consistent_empty env)

/-! ### The round trip -/

def Quotes (ctl : Control) (s : State) (r : Record) : Prop :=
  natRtspModifyPort2 ctl s r.ct r.port ((r.port + 1) % 65536) = (r.rtp, r.rtcp)

def Unexpected (s : State) (ct port : Nat) : Prop :=
  ∀ e ∈ s.expects.list, e.master = ct → e.tuple.dstPort ≠ port

/-- An expectation at the outside port has saved the client's; or there is none, and the first
connection whose tuple has the port in the direction of the reply has the client's in the other;
or nothing is found, and the outside port is the client's own. -/
inductive Restores (ctl : Control) (s : State) (ct port client : Nat) : Prop
  | expected (e : ConntrackExpect) (hmem : e ∈ s.expects.list) (hmaster : e.master = ct)
      (hport : e.tuple.dstPort = port) (hsaved : e.saved = client)
  | connected (child : Child) (hnone : Unexpected s ct port)
      (hchild : childAt s ctl.lanInitiated ct port = some child)
      (hpos : client ≠ 0) (hsrc : (child.tuplehash (!ctl.lanInitiated)).src = client)
  | untouched (hnone : Unexpected s ct port)
      (hchild : ∀ child, childAt s ctl.lanInitiated ct port = some child →
        (child.tuplehash (!ctl.lanInitiated)).src = 0) (hsame : port = client)

theorem expectAt_eq_none_iff (s : State) (ct port : Nat) :
    expectAt s.expects ct port = none ↔ Unexpected s ct port := by
  simp [expectAt, Unexpected, find?_eq_none]

/-- Of the helper's expectations for a control connection there is at most one at a
port. -/
theorem Consistent.expect_unique (h : Consistent env s) {a b : ConntrackExpect}
    (hcontrol : env.control a.master = some ctl) (ha : a ∈ s.expects.list) (hb : b ∈ s.expects.list)
    (hmaster : b.master = a.master) (hport : b.tuple.dstPort = a.tuple.dstPort) : b = a := by
  have hchannel := h.channel a ha ctl hcontrol
  have hother := h.channel b hb ctl (hmaster ▸ hcontrol)
  apply h.sound.eq_of_key hb ha
  rw [matchKey, matchKey, hmaster, hother.tuple, hother.mask, hchannel.mask, hchannel.tuple, hport]

theorem Consistent.expectAt_eq (h : Consistent env s) (hcontrol : env.control e.master = some ctl)
    (he : e ∈ s.expects.list) : expectAt s.expects e.master e.tuple.dstPort = some e := by
  cases hat : expectAt s.expects e.master e.tuple.dstPort with
  | none =>
    rw [expectAt_eq_none_iff] at hat
    exact absurd rfl (hat e he rfl)
  | some found =>
    obtain ⟨hmem, hmaster, hport⟩ := expectAt_mem hat
    rw [h.expect_unique hcontrol he hmem hmaster hport]

theorem pair_eq_iff (a b c : Nat) :
    (a, (a + 1) % 65536) = (b, c) ↔ c = (b + 1) % 65536 ∧ a = b := by
  rw [Prod.mk.injEq]
  constructor
  · rintro ⟨rfl, rfl⟩
    exact ⟨rfl, rfl⟩
  · rintro ⟨rfl, rfl⟩
    exact ⟨rfl, rfl⟩

theorem Consistent.quotes_expected (h : Consistent env s) (hcontrol : env.control r.ct = some ctl)
    (he : e ∈ s.expects.list) (hmaster : e.master = r.ct) (hport : e.tuple.dstPort = r.port) :
    Quotes ctl s r ↔ r.rtcp = (r.rtp + 1) % 65536 ∧ e.saved = r.rtp := by
  rw [← hmaster] at hcontrol
  have hat := h.expectAt_eq hcontrol he
  have hpos := (h.channel e he ctl hcontrol).saved_pos
  rw [hmaster, hport] at hat
  simp only [Quotes, natRtspModifyPort2, lookupMappingPort, hat]
  rw [if_neg (ne_of_gt hpos), pair_eq_iff]

private theorem childSource_eq_zero_iff (ctl : Control) (s : State) (ct port : Nat) :
    childSource ctl s ct port = 0 ↔
      ∀ child, childAt s ctl.lanInitiated ct port = some child →
        (child.tuplehash (!ctl.lanInitiated)).src = 0 := by
  unfold childSource
  cases childAt s ctl.lanInitiated ct port with
  | none => simp
  | some child => simp

private theorem childSource_eq_iff (ctl : Control) (s : State) (ct port : Nat) {client : Nat}
    (hpos : client ≠ 0) :
    childSource ctl s ct port = client ↔
      ∃ child, childAt s ctl.lanInitiated ct port = some child ∧
        (child.tuplehash (!ctl.lanInitiated)).src = client := by
  unfold childSource
  cases childAt s ctl.lanInitiated ct port with
  | none => simpa using hpos.symm
  | some child => simp

private theorem quotes_unexpected (hnone : Unexpected s r.ct r.port) (hpos : r.rtp ≠ 0) :
    Quotes ctl s r ↔ r.rtcp = (r.rtp + 1) % 65536 ∧ Restores ctl s r.ct r.port r.rtp := by
  have hat := (expectAt_eq_none_iff s r.ct r.port).mpr hnone
  simp only [Quotes, natRtspModifyPort2, lookupMappingPort, hat]
  split
  next hzero =>
    rw [pair_eq_iff]
    have hmiss := (childSource_eq_zero_iff ctl s r.ct r.port).mp hzero
    refine and_congr_right (fun _ => ⟨.untouched hnone hmiss, ?_⟩)
    rintro (⟨e, hmem, hmaster, hport, _⟩ | ⟨child, _, hchild, _, hsrc⟩ | ⟨_, _, hsame⟩)
    · exact absurd hport (hnone e hmem hmaster)
    · exact absurd (hsrc.symm.trans (hmiss child hchild)) hpos
    · exact hsame
  next hfound =>
    rw [pair_eq_iff, childSource_eq_iff ctl s r.ct r.port hpos]
    refine and_congr_right (fun _ => ⟨?_, ?_⟩)
    · rintro ⟨child, hchild, hsrc⟩
      exact .connected child hnone hchild hpos hsrc
    rintro (⟨e, hmem, hmaster, hport, _⟩ | ⟨child, _, hchild, _, hsrc⟩ | ⟨_, hmiss, _⟩)
    · exact absurd hport (hnone e hmem hmaster)
    · exact ⟨child, hchild, hsrc⟩
    · exact absurd ((childSource_eq_zero_iff ctl s r.ct r.port).mpr hmiss) hfound

theorem Consistent.quotes_iff (h : Consistent env s)
    (hr : r ∈ s.records) (hcontrol : env.control r.ct = some ctl) :
    Quotes ctl s r ↔ r.rtcp = (r.rtp + 1) % 65536 ∧ Restores ctl s r.ct r.port r.rtp := by
  cases hat : expectAt s.expects r.ct r.port with
  | none =>
    exact quotes_unexpected ((expectAt_eq_none_iff s r.ct r.port).mp hat)
      (ne_of_gt (h.announced r hr))
  | some e =>
    obtain ⟨hmem, hmaster, hport⟩ := expectAt_mem hat
    rw [h.quotes_expected hcontrol hmem hmaster hport]
    refine and_congr_right (fun _ => ⟨.expected e hmem hmaster hport, ?_⟩)
    rintro (⟨e', hmem', hmaster', hport', hsaved⟩ | ⟨_, hnone, _⟩ | ⟨hnone, _⟩)
    · have heq := h.expect_unique (hmaster ▸ hcontrol) hmem hmem'
        (hmaster'.trans hmaster.symm) (hport'.trans hport.symm)
      exact heq ▸ hsaved
    · exact absurd hport (hnone e hmem hmaster)
    · exact absurd hport (hnone e hmem hmaster)

def after (env : Env) (events : List Event) : State :=
  run (step env) events .empty

/-- The reply that quotes a pair rewritten in a run gets the client's pair back exactly if the
client's RTCP port is the one after its RTP port and the outside port stands for the RTP port.
While the mapping is the expectation made for it, the latter means that this expectation was not
there before for another port of the client. -/
theorem rtsp_round_trip_iff (env : Env) (events : List Event) (r : Record)
    (hr : r ∈ (after env events).records) (ctl : Control) (hcontrol : env.control r.ct = some ctl) :
    (Quotes ctl (after env events) r ↔
      r.rtcp = (r.rtp + 1) % 65536 ∧ Restores ctl (after env events) r.ct r.port r.rtp) ∧
    ∀ e ∈ (after env events).expects.list, e.id = r.exp →
      (Quotes ctl (after env events) r ↔ r.rtcp = (r.rtp + 1) % 65536 ∧ e.saved = r.rtp) := by
  have h : Consistent env (after env events) := consistent_run env events
  refine ⟨h.quotes_iff hr hcontrol, ?_⟩
  intro e he hid
  obtain ⟨hmaster, hport⟩ := h.named r hr e he hid
  exact h.quotes_expected hcontrol he hmaster hport

/-! ### Two clients of one server -/

def twoClients : Env :=
  ⟨8, fun ct => if ct < 2 then some ⟨100, 7, true⟩ else none⟩

def fivePorts (rtcp : Nat) (hpos : 0 < rtcp) (hlt : rtcp < 65536) : Announced :=
  ⟨5000, rtcp, Nat.succ_pos _, by norm_num, hpos, hlt⟩

def sameSetup : List Event :=
  [.setup 0 (fivePorts 5001 (Nat.succ_pos _) (by norm_num)) true,
    .setup 1 (fivePorts 5001 (Nat.succ_pos _) (by norm_num)) true]

def mediaStarts : Event :=
  .arrive ⟨2, 17, 100, 40000, 7, 5002⟩ (fun _ => true) 40000

theorem second_client_quoted :
    Quotes ⟨100, 7, true⟩ (after twoClients sameSetup) ⟨1, 5000, 5001, 5002, 3⟩ :=
  ((rtsp_round_trip_iff twoClients sameSetup ⟨1, 5000, 5001, 5002, 3⟩
    (mem_cons_self) ⟨100, 7, true⟩ rfl).2
      ⟨3, 1, udpTuple ⟨100, 7, true⟩ 5002, udpMask, 5000, false⟩
      (mem_cons_of_mem _ mem_cons_self) rfl).mpr ⟨rfl, rfl⟩

/-- The media of the second client have started: its mapping is a connection, looked up by the
server's port, and the reply keeps the outside ports. A pair with a gap is not restored even from
its expectation. -/
theorem media_and_gap_not_quoted :
    (∃ r ∈ (after twoClients (sameSetup ++ [mediaStarts])).records,
      (∃ child ∈ (after twoClients (sameSetup ++ [mediaStarts])).children, child.exp = r.exp) ∧
      ¬Quotes ⟨100, 7, true⟩ (after twoClients (sameSetup ++ [mediaStarts])) r) ∧
    ∃ r ∈ (after twoClients
        [.setup 0 (fivePorts 5005 (Nat.succ_pos _) (by norm_num)) true]).records,
      (∃ e ∈ (after twoClients
          [.setup 0 (fivePorts 5005 (Nat.succ_pos _) (by norm_num)) true]).expects.list,
        e.id = r.exp) ∧
      ¬Quotes ⟨100, 7, true⟩ (after twoClients
        [.setup 0 (fivePorts 5005 (Nat.succ_pos _) (by norm_num)) true]) r := by
  constructor
  · refine ⟨⟨1, 5000, 5001, 5002, 3⟩, mem_cons_self,
      ⟨⟨1, 3, ⟨40000, 5002⟩, ⟨5000, 40000⟩⟩, mem_cons_self, rfl⟩, ?_⟩
    change ((5002, 5003) : Nat × Nat) ≠ (5000, 5001)
    simp
  · refine ⟨⟨0, 5000, 5005, 5000, 1⟩, mem_cons_self,
      ⟨⟨1, 0, udpTuple ⟨100, 7, true⟩ 5000, udpMask, 5000, false⟩,
        mem_cons_of_mem _ mem_cons_self, rfl⟩, ?_⟩
    change ((5000, 5001) : Nat × Nat) ≠ (5000, 5005)
    simp

end EchoLife.Netfilter.RtspMapping
