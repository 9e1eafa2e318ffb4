import EchoLife.Base.Run

/-!
The cone NAT target. An outbound UDP flow of an internal address and port leaves from an external
port that is written down as an expectation, so that later flows of the same internal port use it
too and anyone can reach it from outside. The helper sets it up when the packet has left; it goes
with its flow, or after a time.
-/

namespace EchoLife.Netfilter

open List Run

variable {taken : UInt16 → Bool} {rounds : Nat}

structure Endpoint where
  ip : UInt32
  port : UInt16
  deriving DecidableEq

structure Tuple where
  src : Endpoint
  dst : Endpoint
  protonum : UInt8
  deriving DecidableEq

/-- The connection it belongs to, the external address and port it waits at, and the internal
ones. -/
structure Expect where
  master : Nat
  dst : Endpoint
  protonum : UInt8
  saved : Endpoint
  deriving DecidableEq

def ipprotoUdp : UInt8 := 17

def expCmp (exp : Expect) (ip : UInt32) (port : UInt16) (proto : UInt8) : Bool :=
  exp.dst.ip == ip && exp.dst.port == port && exp.protonum == proto

def expSrcCmp (exp : Expect) (tp : Tuple) : Bool :=
  exp.saved.ip == tp.src.ip && exp.saved.port == tp.src.port && exp.protonum == tp.protonum

structure PortRange where
  min : UInt16
  max : UInt16

/-- How the loop over the ports ends: with a free one, past the last one, or never. -/
inductive Search where
  | found (port : UInt16)
  | exhausted
  | endless
  deriving DecidableEq

/-- The counter has 16 bits, so with 65535 as the last port it wraps around; what is not found in
65536 rounds is not found. -/
def searchPort (taken : UInt16 → Bool) (last : UInt16) : Nat → UInt16 → Search
  | 0, _ => .endless
  | rounds + 1, port =>
    if port ≤ last then
      if taken port then searchPort taken last rounds (port + 1) else .found port
    else .exhausted

inductive Target where
  | accept
  | drop
  | endless
  | setup (newsrc : UInt32) (min max : UInt16)
  | masquerade (newsrc : UInt32)
  deriving DecidableEq

def usMinPort (mr : PortRange) (tp : Tuple) : UInt16 :=
  if mr.min = 0 then tp.src.port else mr.min

def usMaxPort (mr : PortRange) : UInt16 :=
  if mr.max = 0 then 65535 else mr.max

section
variable (mr : PortRange) (expects : List Expect) (tp : Tuple) (newsrc : UInt32)

def portTaken (protonum : UInt8) (port : UInt16) : Bool :=
  expects.any (fun exp => expCmp exp newsrc port protonum)

/-- What the target hands to `nf_nat_setup_info`. That no port is left is not told from a free one:
the whole range is handed on. -/
def choosePort (protonum : UInt8) (min max : UInt16) : Target :=
  match searchPort (portTaken expects newsrc protonum) max 65537 min with
  | .found port => .setup newsrc port port
  | .exhausted => .setup newsrc min max
  | .endless => .endless

/-- For a new connection. `newsrc` is the address of the interface, or 0 if it has none. -/
def conenatTarget : Target :=
  if tp.src.ip = 0 then .accept
  else if newsrc = 0 then .drop
  else if tp.protonum = ipprotoUdp then
    match expects.find? (fun exp => expSrcCmp exp tp) with
    | some exp => .setup newsrc exp.dst.port exp.dst.port
    | none => choosePort expects newsrc tp.protonum (usMinPort mr tp) (usMaxPort mr)
  else .masquerade newsrc

/-- `nf_nat_setup_info` picks a port from a range, or refuses; from a range of one port it picks
that. -/
structure NatSetup where
  choose : UInt32 → UInt16 → UInt16 → Option UInt16
  single : ∀ ip port picked, choose ip port port = some picked → picked = port

/-- Nothing is inserted next to an expectation that clashes. The ones of this helper mask all but
the external side. -/
def expectRelated (exp : Expect) : List Expect :=
  if expects.any (fun i => i.dst == exp.dst && i.protonum == exp.protonum) then expects
  else exp :: expects

/-- A connection of the target: its original direction, where its replies come in, and whether the
target could make itself its helper. -/
structure Conn where
  id : Nat
  orig : Tuple
  reply : Endpoint
  helped : Bool
  deriving DecidableEq

/-- `atp_nat_help2` for a packet of a connection that has had no reply. -/
def atpNatHelp2 (allocOk : Bool) (conn : Conn) (expects : List Expect) : List Expect :=
  if conn.helped && allocOk then
    expectRelated expects ⟨conn.id, conn.reply, conn.orig.protonum, conn.orig.src⟩
  else expects

structure State where
  next : Nat
  conns : List Conn
  expects : List Expect
  deriving DecidableEq

def State.initial : State :=
  ⟨0, [], []⟩

def translated
    (nat : NatSetup) : Option Endpoint :=
  match conenatTarget mr expects tp newsrc with
  | .setup newsrc min max => (nat.choose newsrc min max).map (fun port => ⟨newsrc, port⟩)
  | _ => none

/-- A new flow, a further packet of a flow without a reply, the timer of an
expectation and the end of a flow. -/
inductive Event where
  | flow (tp : Tuple) (newsrc : UInt32) (nat : NatSetup) (helped allocOk : Bool)
  | packet (id : Nat) (allocOk : Bool)
  | timeout (exp : Expect)
  | destroy (id : Nat)

def Event.step : Event → State → State
  | .flow tp newsrc nat helped allocOk, s =>
    match translated mr s.expects tp newsrc nat with
    | none => s
    | some reply =>
      let conn := ⟨s.next, tp, reply, helped⟩
      ⟨s.next + 1, conn :: s.conns, atpNatHelp2 allocOk conn s.expects⟩
  | .packet id allocOk, s =>
    match s.conns.find? (fun conn => conn.id == id) with
    | none => s
    | some conn => { s with expects := atpNatHelp2 allocOk conn s.expects }
  | .timeout exp, s => { s with expects := s.expects.erase exp }
  | .destroy id, s =>
    { s with
      conns := s.conns.filter (fun conn => conn.id != id)
      expects := s.expects.filter (fun exp => exp.master != id) }

end

/-- A new flow of the tuple is given this port: a live mapping of its internal endpoint has it, or
there is none and it is the first port of the range that no mapping on the address has. -/
def Given (mr : PortRange) (expects : List Expect) (tp : Tuple) (newsrc : UInt32)
    (port : UInt16) : Prop :=
  (∃ exp ∈ expects, exp.saved = tp.src ∧ exp.dst.port = port) ∨
  (∀ exp ∈ expects, exp.saved ≠ tp.src) ∧ usMinPort mr tp ≤ port ∧ port ≤ usMaxPort mr ∧
    portTaken expects newsrc tp.protonum port = false ∧
    ∀ lower, usMinPort mr tp ≤ lower → lower < port →
      portTaken expects newsrc tp.protonum lower = true

/-- Nothing is written down for an internal endpoint that has another port by then. A new flow
writes down nothing, because there is no helper or no memory for it or the port of its mapping is in
use on this address, or is given the port of the other flows of its internal endpoint that leave
from this address. A further packet writes down nothing either, or all mappings of its internal
endpoint, and the flows that leave from the same address, have its port. -/
def Event.SamePort (mr : PortRange) : Event → State → Prop
  | .flow tp newsrc _ helped allocOk, s =>
      (helped && allocOk) = false ∨
      (∃ exp ∈ s.expects, exp.saved = tp.src ∧
        ∃ other ∈ s.expects, other.dst = ⟨newsrc, exp.dst.port⟩) ∨
      ∀ conn ∈ s.conns, conn.orig.src = tp.src → conn.reply.ip = newsrc →
        Given mr s.expects tp newsrc conn.reply.port
  | .packet id allocOk, s => ∀ conn ∈ s.conns, conn.id = id →
      (conn.helped && allocOk) = false ∨
      (∃ exp ∈ s.expects, exp.dst = conn.reply) ∨
      (∀ exp ∈ s.expects, exp.saved = conn.orig.src → exp.dst.port = conn.reply.port) ∧
        ∀ other ∈ s.conns, other.orig.src = conn.orig.src → other.reply.ip = conn.reply.ip →
          other.reply.port = conn.reply.port
  | .timeout _, _ => True
  | .destroy _, _ => True

variable {last start : UInt16} {exp : Expect} {tp : Tuple}

private theorem searchPort_endless_iff (taken : UInt16 → Bool) (last : UInt16) (rounds : Nat)
    (start : UInt16) :
    searchPort taken last rounds start = .endless ↔
      ∀ i < rounds, start + UInt16.ofNat i ≤ last ∧ taken (start + UInt16.ofNat i) = true := by
  induction rounds generalizing start with
  | zero => simp [searchPort]
  | succ rounds ih =>
    have hnext (i : Nat) : start + UInt16.ofNat (i + 1) = start + 1 + UInt16.ofNat i := by
      rw [UInt16.ofNat_add, UInt16.add_assoc, UInt16.add_comm (UInt16.ofNat i)]
      rfl
    have hsplit : (∀ i < rounds + 1, start + UInt16.ofNat i ≤ last ∧
        taken (start + UInt16.ofNat i) = true) ↔
        (start ≤ last ∧ taken start = true) ∧
          ∀ i < rounds, start + 1 + UInt16.ofNat i ≤ last ∧
            taken (start + 1 + UInt16.ofNat i) = true := by
      constructor
      · intro h
        refine ⟨?_, ?_⟩
        · simpa using h 0 (Nat.succ_pos rounds)
        intro i hi
        rw [← hnext]
        exact h (i + 1) (Nat.succ_lt_succ hi)
      · rintro ⟨hfirst, hrest⟩ i hi
        cases i with
        | zero => simpa using hfirst
        | succ i =>
          rw [hnext]
          exact hrest i (Nat.lt_of_succ_lt_succ hi)
    rw [hsplit, ← ih, searchPort]
    split
    next hle =>
      cases htaken : taken start with
      | true => simp [hle]
      | false => simp
    next hle =>
      simp [hle]

/-- What is not found in 65537 rounds is never found. -/
theorem searchPort_endless (h : searchPort taken last 65537 start = .endless) (rounds : Nat) :
    searchPort taken last rounds start = .endless := by
  rw [searchPort_endless_iff] at h ⊢
  intro i _
  have hsame : UInt16.ofNat (UInt16.ofNat i).toNat = UInt16.ofNat i := UInt16.ofNat_toNat
  have hround := h (UInt16.ofNat i).toNat (Nat.lt_succ_of_lt (UInt16.toNat_lt _))
  rw [hsame] at hround
  exact hround

/-- The loop leaves with the first free port of the range, or without one if there is none. -/
def SearchEnds (taken : UInt16 → Bool) (first last : UInt16) : Search → Prop
  | .found port => first ≤ port ∧ port ≤ last ∧ taken port = false ∧
      ∀ lower, first ≤ lower → lower < port → taken lower = true
  | .exhausted => ∀ port, first ≤ port → port ≤ last → taken port = true
  | .endless => False

/-- The loop does so unless it passes 65535, its last port, and wraps around. -/
theorem searchPort_ends (hrounds : last.toNat + 1 - start.toNat < rounds)
    (hends : last ≠ 65535 ∨ ∃ port, start ≤ port ∧ taken port = false) :
    SearchEnds taken start last (searchPort taken last rounds start) := by
  induction rounds generalizing start with
  | zero => omega
  | succ rounds ih =>
    rw [searchPort]
    split
    next hle =>
      cases htaken : taken start with
      | false =>
        refine ⟨UInt16.le_refl _, hle, htaken, fun lower hlower hlt => ?_⟩
        exact absurd hlower (UInt16.not_le.mpr hlt)
      | true =>
        have hlater {port : UInt16} (hport : start ≤ port) (hne : port ≠ start) :
            start.toNat + 1 ≤ port.toNat :=
          lt_of_le_of_ne hport (fun h => hne (UInt16.toNat_inj.mp h).symm)
        have hother {port : UInt16} (hfree : taken port = false) : port ≠ start := by
          rintro rfl
          rw [htaken] at hfree
          cases hfree
        have hupper : start.toNat ≤ last.toNat := hle
        have hlast := last.toNat_lt
        have hmore : start.toNat + 1 < 65536 := by
          rcases hends with hlimit | ⟨port, hport, hfree⟩
          · have hdiffer : last.toNat ≠ 65535 := fun h => hlimit (UInt16.toNat_inj.mp h)
            omega
          · have := hlater hport (hother hfree)
            have := port.toNat_lt
            omega
        have hnext : (start + 1).toNat = start.toNat + 1 := Nat.mod_eq_of_lt hmore
        have hright : SearchEnds taken (start + 1) last
            (searchPort taken last rounds (start + 1)) := by
          apply ih (by omega)
          refine hends.imp id ?_
          rintro ⟨port, hport, hfree⟩
          refine ⟨port, ?_, hfree⟩
          rw [UInt16.le_iff_toNat_le, hnext]
          exact hlater hport (hother hfree)
        generalize searchPort taken last rounds (start + 1) = result at hright ⊢
        cases result with
        | found port =>
          obtain ⟨hport, hrest, hfree, hlower⟩ := hright
          have : (start + 1).toNat ≤ port.toNat := hport
          refine ⟨by rw [UInt16.le_iff_toNat_le]; omega, hrest, hfree, ?_⟩
          intro lower hstart hlt
          rcases eq_or_ne lower start with rfl | hne
          · exact htaken
          · apply hlower lower _ hlt
            rw [UInt16.le_iff_toNat_le, hnext]
            exact hlater hstart hne
        | exhausted =>
          intro port hport hupto
          rcases eq_or_ne port start with rfl | hne
          · exact htaken
          · apply hright port _ hupto
            rw [UInt16.le_iff_toNat_le, hnext]
            exact hlater hport hne
        | endless => exact hright
    next hgt =>
      intro port hport hlast
      exact absurd (UInt16.le_trans hport hlast) hgt

/-- A free port of the range is handed on, as a range of one port, if there is one, and the packet
is dropped if there is none. -/
def PortRight (taken : UInt16 → Bool) (first last : UInt16) : Target → Prop
  | .setup _ min max => min = max ∧ first ≤ min ∧ min ≤ last ∧ taken min = false
  | .drop => ∀ port, first ≤ port → port ≤ last → taken port = true
  | _ => False

private theorem choosePort_ne_drop (expects : List Expect) (newsrc : UInt32) (proto : UInt8)
    (min max : UInt16) : choosePort expects newsrc proto min max ≠ .drop := by
  unfold choosePort
  split <;> simp

/-- The first free port of a range is the one that is handed on. -/
theorem choosePort_first {expects : List Expect} {newsrc : UInt32} {proto : UInt8}
    {min max port : UInt16} (hmin : min ≤ port) (hmax : port ≤ max)
    (hfree : portTaken expects newsrc proto port = false) :
    ∃ first, min ≤ first ∧ first ≤ max ∧ portTaken expects newsrc proto first = false ∧
      (∀ lower, min ≤ lower → lower < first → portTaken expects newsrc proto lower = true) ∧
      choosePort expects newsrc proto min max = .setup newsrc first first := by
  have hrounds : max.toNat + 1 - min.toNat < 65537 := by
    have hlt := max.toNat_lt
    omega
  have hends := searchPort_ends hrounds (.inr ⟨port, hmin, hfree⟩)
  unfold choosePort
  cases hsearch : searchPort (portTaken expects newsrc proto) max 65537 min with
  | found first =>
    rw [hsearch] at hends
    exact ⟨first, hends.1, hends.2.1, hends.2.2.1, hends.2.2.2, rfl⟩
  | exhausted =>
    rw [hsearch] at hends
    rw [hends port hmin hmax] at hfree
    cases hfree
  | endless =>
    rw [hsearch] at hends
    exact hends.elim

/-- For all expectations, ranges and starting ports: the search answers right exactly if the range
has a free port. It is called endless if no number of rounds is enough. -/
theorem port_search_right_iff (expects : List Expect) (newsrc : UInt32) (proto : UInt8)
    (min max : UInt16) :
    (PortRight (portTaken expects newsrc proto) min max
        (choosePort expects newsrc proto min max) ↔
      ∃ port, min ≤ port ∧ port ≤ max ∧ portTaken expects newsrc proto port = false) ∧
    (choosePort expects newsrc proto min max = .endless ↔
      ∀ rounds, searchPort (portTaken expects newsrc proto) max rounds min = .endless) := by
  have hendless : choosePort expects newsrc proto min max = .endless ↔
      searchPort (portTaken expects newsrc proto) max 65537 min = .endless := by
    unfold choosePort
    split <;> simp [*]
  refine ⟨⟨?_, ?_⟩, hendless.trans ⟨searchPort_endless, fun h => h 65537⟩⟩
  · intro hright
    have hdrop := choosePort_ne_drop expects newsrc proto min max
    cases htarget : choosePort expects newsrc proto min max with
    | setup newsrc a b =>
      rw [htarget] at hright
      exact ⟨a, hright.2⟩
    | drop => exact absurd htarget hdrop
    | accept => rw [htarget] at hright; exact hright.elim
    | endless => rw [htarget] at hright; exact hright.elim
    | masquerade => rw [htarget] at hright; exact hright.elim
  · rintro ⟨port, hmin, hmax, hfree⟩
    obtain ⟨first, hfirst, hlast, hfree, -, htarget⟩ := choosePort_first hmin hmax hfree
    rw [htarget]
    exact ⟨rfl, hfirst, hlast, hfree⟩

theorem expSrcCmp_iff (exp : Expect) (tp : Tuple) :
    expSrcCmp exp tp = true ↔ exp.saved = tp.src ∧ exp.protonum = tp.protonum := by
  simp only [expSrcCmp, Bool.and_eq_true, beq_iff_eq]
  constructor
  · rintro ⟨⟨hip, hport⟩, hproto⟩
    refine ⟨?_, hproto⟩
    cases hsaved : exp.saved with
    | mk ip port =>
      cases hsrc : tp.src with
      | mk ip' port' =>
        rw [hsaved, hsrc] at hip hport
        simp only at hip hport
        rw [hip, hport]
  · rintro ⟨hsrc, hproto⟩
    rw [hsrc]
    exact ⟨⟨rfl, rfl⟩, hproto⟩

variable {expects : List Expect} {newsrc : UInt32}

/-- What the target hands on is for the address of the interface, and only for UDP. -/
theorem conenatTarget_setup {mr : PortRange} {ip : UInt32} {min max : UInt16}
    (h : conenatTarget mr expects tp newsrc = .setup ip min max) :
    tp.src.ip ≠ 0 ∧ newsrc ≠ 0 ∧ tp.protonum = ipprotoUdp ∧ ip = newsrc := by
  unfold conenatTarget choosePort at h
  grind

theorem translated_eq_some {mr : PortRange} {nat : NatSetup} {reply : Endpoint}
    (ht : translated mr expects tp newsrc nat = some reply) :
    tp.src.ip ≠ 0 ∧ newsrc ≠ 0 ∧ tp.protonum = ipprotoUdp ∧ reply.ip = newsrc := by
  unfold translated at ht
  split at ht
  next htarget =>
    obtain ⟨hip, hnewsrc, hudp, rfl⟩ := conenatTarget_setup htarget
    obtain ⟨port, -, rfl⟩ := Option.map_eq_some_iff.mp ht
    exact ⟨hip, hnewsrc, hudp, rfl⟩
  · cases ht

/-- The mappings that are live: no two at one external endpoint, and for one internal
endpoint one external port. -/
structure SoundExpects (expects : List Expect) : Prop where
  udp : ∀ exp ∈ expects, exp.protonum = ipprotoUdp
  distinct : (expects.map Expect.dst).Nodup
  samePort : ∀ a ∈ expects, ∀ b ∈ expects, a.saved = b.saved → a.dst.port = b.dst.port

section

variable (h : SoundExpects expects)
include h

theorem SoundExpects.sublist {fewer : List Expect}
    (hsub : fewer.Sublist expects) : SoundExpects fewer where
  udp := fun exp hexp => h.udp exp (hsub.subset hexp)
  distinct := h.distinct.sublist (hsub.map Expect.dst)
  samePort := fun a ha b hb => h.samePort a (hsub.subset ha) b (hsub.subset hb)

theorem SoundExpects.related
    (hudp : exp.protonum = ipprotoUdp) (hport : (∃ old ∈ expects, old.dst = exp.dst) ∨
      ∀ old ∈ expects, old.saved = exp.saved → old.dst.port = exp.dst.port) :
    SoundExpects (expectRelated expects exp) := by
  unfold expectRelated
  split
  · exact h
  rename_i hfree
  have hnew : exp.dst ∉ expects.map Expect.dst := by
    intro hmem
    obtain ⟨old, hold, hsame⟩ := mem_map.mp hmem
    apply hfree
    rw [any_eq_true]
    refine ⟨old, hold, ?_⟩
    rw [Bool.and_eq_true, beq_iff_eq, h.udp old hold, hudp]
    exact ⟨hsame, rfl⟩
  have hports : ∀ old ∈ expects, old.saved = exp.saved → old.dst.port = exp.dst.port := by
    rcases hport with ⟨old, hold, hsame⟩ | hport
    · exact absurd (mem_map.mpr ⟨old, hold, hsame⟩) hnew
    · exact hport
  constructor
  · exact forall_mem_cons.mpr ⟨hudp, h.udp⟩
  · rw [map_cons, nodup_cons]
    exact ⟨hnew, h.distinct⟩
  intro a ha b hb hsaved
  rcases mem_cons.mp ha with rfl | haold
  · rcases mem_cons.mp hb with rfl | hbold
    · rfl
    · exact (hports b hbold hsaved.symm).symm
  · rcases mem_cons.mp hb with rfl | hbold
    · exact hports a haold hsaved
    · exact h.samePort a haold b hbold hsaved

/-- What is inserted is at an external endpoint that no mapping has. -/
theorem SoundExpects.mem_related {new : Expect} (hudp : new.protonum = ipprotoUdp)
    (hexp : exp ∈ expectRelated expects new) :
    exp ∈ expects ∨ exp = new ∧ ¬∃ old ∈ expects, old.dst = new.dst := by
  unfold expectRelated at hexp
  split at hexp
  · exact .inl hexp
  next hfree =>
    rcases mem_cons.mp hexp with rfl | hold
    · refine .inr ⟨rfl, ?_⟩
      rintro ⟨old, hold, hsame⟩
      exact hfree (any_eq_true.mpr ⟨old, hold, by simp [hsame, h.udp old hold, hudp]⟩)
    · exact .inl hold

/-- A flow of an internal endpoint with a live mapping is given the mapping's port,
whichever interface it leaves through. -/
theorem conenatTarget_mapped (mr : PortRange) (hexp : exp ∈ expects) (hsrc : tp.src = exp.saved)
    (hudp : tp.protonum = ipprotoUdp) (hip : tp.src.ip ≠ 0) (hnewsrc : newsrc ≠ 0) :
    conenatTarget mr expects tp newsrc = .setup newsrc exp.dst.port exp.dst.port := by
  rw [conenatTarget, if_neg hip, if_neg hnewsrc, if_pos hudp]
  cases hfind : expects.find? (fun exp => expSrcCmp exp tp) with
  | none =>
    have hnone := find?_eq_none.mp hfind exp hexp
    rw [expSrcCmp_iff, h.udp exp hexp, hudp] at hnone
    exact absurd ⟨hsrc.symm, rfl⟩ hnone
  | some first =>
    have hfirst := find?_some hfind
    rw [expSrcCmp_iff] at hfirst
    have hsame := h.samePort first (mem_of_find?_eq_some hfind) exp hexp (hfirst.1.trans hsrc)
    simp only [hsame]

theorem translated_samePort {mr : PortRange}
    {nat : NatSetup} {reply : Endpoint} (ht : translated mr expects tp newsrc nat = some reply) :
    ∀ exp ∈ expects, exp.saved = tp.src → exp.dst.port = reply.port := by
  obtain ⟨hip, hnewsrc, hudp, -⟩ := translated_eq_some ht
  intro exp hexp hsaved
  rw [translated, conenatTarget_mapped h mr hexp hsaved.symm hudp hip hnewsrc] at ht
  obtain ⟨port, hchoose, rfl⟩ := Option.map_eq_some_iff.mp ht
  exact (nat.single _ _ _ hchoose).symm

/-- The port that a new flow is given, told by the mappings alone. -/
theorem translated_given {mr : PortRange} {nat : NatSetup} {reply : Endpoint} {port : UInt16}
    (ht : translated mr expects tp newsrc nat = some reply)
    (hgiven : Given mr expects tp newsrc port) : port = reply.port := by
  obtain ⟨hip, hnewsrc, hudp, -⟩ := translated_eq_some ht
  rcases hgiven with ⟨exp, hexp, hsaved, rfl⟩ | ⟨hnone, hmin, hmax, hfree, hlower⟩
  · exact translated_samePort h ht exp hexp hsaved
  obtain ⟨first, hfirst, -, hfirstFree, hfirstLower, htarget⟩ := choosePort_first hmin hmax hfree
  have hsame : first = port := by
    rcases Nat.lt_trichotomy first.toNat port.toNat with hlt | heq | hgt
    · rw [hlower first hfirst hlt] at hfirstFree
      cases hfirstFree
    · exact UInt16.toNat_inj.mp heq
    · rw [hfirstLower port hmin hgt] at hfree
      cases hfree
  have hfind : expects.find? (fun exp => expSrcCmp exp tp) = none := by
    rw [find?_eq_none]
    intro exp hexp hcmp
    exact hnone exp hexp ((expSrcCmp_iff exp tp).mp hcmp).1
  rw [translated, conenatTarget, if_neg hip, if_neg hnewsrc, if_pos hudp, hfind] at ht
  simp only [htarget] at ht
  obtain ⟨picked, hchoose, rfl⟩ := Option.map_eq_some_iff.mp ht
  rw [nat.single _ _ _ hchoose, hsame]

end

/-- The mappings are sound, and a flow that leaves from the address of a live mapping of its
internal endpoint leaves from the port of the mapping. -/
structure Sound (s : State) : Prop where
  expects : SoundExpects s.expects
  udp : ∀ conn ∈ s.conns, conn.orig.protonum = ipprotoUdp
  flows : ∀ exp ∈ s.expects, ∀ conn ∈ s.conns, conn.orig.src = exp.saved →
    conn.reply.ip = exp.dst.ip → conn.reply.port = exp.dst.port

/-- A packet of a flow keeps this if it writes down nothing, or if the mappings and the other flows
of its internal endpoint have its port. -/
theorem Sound.help2 {s : State} (h : Sound s) {conn : Conn} (hconn : conn ∈ s.conns)
    (allocOk : Bool) (hport : (conn.helped && allocOk) = false ∨
      (∃ exp ∈ s.expects, exp.dst = conn.reply) ∨
      (∀ exp ∈ s.expects, exp.saved = conn.orig.src → exp.dst.port = conn.reply.port) ∧
        ∀ other ∈ s.conns, other.orig.src = conn.orig.src → other.reply.ip = conn.reply.ip →
          other.reply.port = conn.reply.port) :
    Sound { s with expects := atpNatHelp2 allocOk conn s.expects } := by
  unfold atpNatHelp2
  split
  next hwrites =>
    refine ⟨h.expects.related (h.udp conn hconn) ?_, h.udp, ?_⟩
    · rcases hport with hnot | hclash | ⟨hmappings, -⟩
      · rw [hnot] at hwrites
        cases hwrites
      · exact .inl hclash
      · exact .inr hmappings
    intro exp hexp other hother hsrc hip
    rcases h.expects.mem_related (h.udp conn hconn) hexp with hold | ⟨rfl, hfree⟩
    · exact h.flows exp hold other hother hsrc hip
    · rcases hport with hnot | hclash | ⟨-, hflows⟩
      · rw [hnot] at hwrites
        cases hwrites
      · exact absurd hclash hfree
      · exact hflows other hother hsrc hip
  next => exact h

theorem Sound.sublist {s : State} (h : Sound s) {conns : List Conn} {expects : List Expect}
    (hconns : conns.Sublist s.conns) (hexpects : expects.Sublist s.expects) :
    Sound ⟨s.next, conns, expects⟩ where
  expects := h.expects.sublist hexpects
  udp conn hconn := h.udp conn (hconns.subset hconn)
  flows exp hexp conn hconn := h.flows exp (hexpects.subset hexp) conn (hconns.subset hconn)

theorem Sound.step (mr : PortRange) (event : Event) (s : State)
    (hok : event.SamePort mr s) (h : Sound s) : Sound (event.step mr s) := by
  cases event with
  | flow tp newsrc nat helped allocOk =>
    simp only [Event.step]
    cases ht : translated mr s.expects tp newsrc nat with
    | none => exact h
    | some reply =>
      obtain ⟨-, -, hudp, hip⟩ := translated_eq_some ht
      have hmappings := translated_samePort h.expects ht
      -- the flow is there before the packet has left and its mapping is written down
      have hopened : Sound ⟨s.next + 1, ⟨s.next, tp, reply, helped⟩ :: s.conns, s.expects⟩ := by
        refine ⟨h.expects, forall_mem_cons.mpr ⟨hudp, h.udp⟩, fun exp hexp => ?_⟩
        exact forall_mem_cons.mpr
          ⟨fun hsrc _ => (hmappings exp hexp hsrc.symm).symm, h.flows exp hexp⟩
      apply hopened.help2 mem_cons_self
      rcases hok with hnot | ⟨exp, hexp, hsaved, other, hother, hdst⟩ | hflows
      · exact .inl hnot
      · refine .inr (.inl ⟨other, hother, ?_⟩)
        rw [hdst, hmappings exp hexp hsaved, ← hip]
      · refine .inr (.inr ⟨hmappings, forall_mem_cons.mpr ⟨fun _ _ => rfl, ?_⟩⟩)
        intro conn hconn hsrc hsameIp
        exact translated_given h.expects ht (hflows conn hconn hsrc (hsameIp.trans hip))
  | packet id allocOk =>
    simp only [Event.step]
    cases hfind : s.conns.find? (fun conn => conn.id == id) with
    | none => exact h
    | some conn =>
      have hmem := mem_of_find?_eq_some hfind
      have hid : conn.id = id := by simpa using find?_some hfind
      exact h.help2 hmem allocOk (hok conn hmem hid)
  | timeout exp => exact h.sublist (Sublist.refl _) erase_sublist
  | destroy id => exact h.sublist filter_sublist filter_sublist

def wanAddress : UInt32 := 0x01020304

def usedPort (port : UInt16) : List Expect :=
  [⟨0, ⟨wanAddress, port⟩, ipprotoUdp, ⟨0xC0A80109, 9⟩⟩]

/-- The only port of the range is in use: the search goes on at 0 and takes that port. A range that
ends before 65535 is handed on as if its port were free. -/
theorem full_range_leaves_range :
    (choosePort (usedPort 65535) wanAddress ipprotoUdp 65535 65535 = .setup wanAddress 0 0 ∧
      ¬PortRight (portTaken (usedPort 65535) wanAddress ipprotoUdp) 65535 65535
        (.setup wanAddress 0 0)) ∧
    (choosePort (usedPort 5000) wanAddress ipprotoUdp 5000 5000 = .setup wanAddress 5000 5000 ∧
      ¬PortRight (portTaken (usedPort 5000) wanAddress ipprotoUdp) 5000 5000
        (.setup wanAddress 5000 5000)) := by
  refine ⟨⟨by decide +kernel, fun h => ?_⟩, ⟨by decide +kernel, fun h => ?_⟩⟩
  · exact absurd h.2.1 (by decide)
  · exact absurd h.2.2.2 (by decide)

end EchoLife.Netfilter
