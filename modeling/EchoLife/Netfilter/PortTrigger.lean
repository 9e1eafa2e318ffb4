import Mathlib.Data.List.Basic
import Mathlib.Tactic

/-!
Port triggers. `count_outport` counts the ports of a configured range, `init` registers a helper
for each, and `help` opens the in-ports of the entries that a packet matches. The counters of the
loops have 16 bits and the bounds are inclusive, so that a range that reaches 65535 is never left.
-/

namespace EchoLife.Netfilter.PortTrigger

open List Option

/-- Three words of `outport` or `inport`. -/
structure Range where
  proto : Nat
  first : Nat
  last : Nat
  first_lt : first < 65536
  last_lt : last < 65536

def Range.ports (r : Range) : List Nat :=
  range' r.first (r.last + 1 - r.first)

/-! ### The loops -/

variable {r : Range} {rounds : Nat}

section Loops
variable {σ : Type} {last port : Nat} {body : Nat → σ → σ × Bool} {s : σ}

/-- `for (port = first; port <= last; port++)` with a body that goes on or returns: the ports for
which it was completed, what it left, and whether the loop was left by its condition. -/
def upTo (last : Nat) (body : Nat → σ → σ × Bool) : Nat → Nat → σ → Option (List Nat × σ × Bool)
  | 0, _, _ => none
  | rounds + 1, port, s =>
    if port ≤ last then
      if (body port s).2 then
        (upTo last body rounds ((port + 1) % 65536) (body port s).1).map fun r => (port :: r.1, r.2)
      else some ([], (body port s).1, false)
    else some ([], s, true)

/-- The same over the ports of a list. -/
def through (body : Nat → σ → σ × Bool) : List Nat → σ → List Nat × σ × Bool
  | [], s => ([], s, true)
  | port :: ports, s =>
    if (body port s).2 then
      (port :: (through body ports (body port s).1).1, (through body ports (body port s).1).2)
    else ([], (body port s).1, false)

/-- A range that ends below 65535 is gone through in order. -/
theorem upTo_eq_some (hlast : last < 65535) {out : List Nat × σ × Bool}
    (h : upTo last body rounds port s = some out) :
    out = through body (range' port (last + 1 - port)) s := by
  induction rounds generalizing port s out with
  | zero => cases h
  | succ rounds ih =>
    rw [upTo] at h
    by_cases hport : port ≤ last
    · obtain ⟨n, hn⟩ := Nat.exists_eq_add_of_le hport
      have hcount : last + 1 - port = n + 1 := by omega
      have hrest : last + 1 - (port + 1) = n := by omega
      rw [if_pos hport, Nat.mod_eq_of_lt (by omega)] at h
      rw [hcount, range'_succ, through]
      split at h
      next hgoes =>
        obtain ⟨rest, hrun, rfl⟩ := map_eq_some_iff.mp h
        rw [if_pos hgoes, ih hrun, hrest]
      next hstops => rw [if_neg hstops, ← some_inj.mp h]
    · rw [if_neg hport] at h
      rw [Nat.sub_eq_zero_of_le (by omega), range'_zero, through, ← some_inj.mp h]

/-- It is left after as many rounds as it has ports, and one more. -/
theorem upTo_of_lt (hlast : last < 65535) (hrounds : last + 1 - port < rounds) :
    upTo last body rounds port s = some (through body (range' port (last + 1 - port)) s) := by
  have hsome : ∃ out, upTo last body rounds port s = some out := by
    induction rounds generalizing port s with
    | zero => omega
    | succ rounds ih =>
      rw [upTo]
      by_cases hport : port ≤ last
      · have hnext : ∃ out, upTo last body rounds (port + 1) (body port s).1 = some out :=
          ih (by omega)
        obtain ⟨out, hout⟩ := hnext
        rw [if_pos hport, Nat.mod_eq_of_lt (by omega), hout]
        split
        · exact ⟨_, rfl⟩
        · exact ⟨_, rfl⟩
      · exact ⟨_, if_neg hport⟩
  obtain ⟨out, hout⟩ := hsome
  rw [hout, upTo_eq_some hlast hout]

/-- A range that ends with 65535 is never left by its condition. -/
theorem upTo_top (hport : port < 65536) {out : List Nat × σ × Bool}
    (h : upTo 65535 body rounds port s = some out) : out.2.2 = false := by
  induction rounds generalizing port s out with
  | zero => cases h
  | succ rounds ih =>
    rw [upTo, if_pos (by omega)] at h
    split at h
    · obtain ⟨rest, hrun, rfl⟩ := map_eq_some_iff.mp h
      have hrest : rest.2.2 = false := ih (Nat.mod_lt _ (by decide)) hrun
      exact hrest
    · rw [← some_inj.mp h]

section
variable (hgoes : ∀ port s, (body port s).2 = true)
include hgoes

theorem through_goes (ports : List Nat) (s : σ) :
    through body ports s = (ports, ports.foldl (fun s port => (body port s).1) s, true) := by
  induction ports generalizing s with
  | nil => rfl
  | cons port ports ih => rw [through, if_pos (hgoes port s), ih, foldl_cons]

theorem upTo_goes {out : List Nat × σ × Bool} (h : upTo last body rounds port s = some out) :
    out.2.2 = true := by
  induction rounds generalizing port s out with
  | zero => cases h
  | succ rounds ih =>
    rw [upTo, hgoes, if_pos rfl] at h
    split at h
    · obtain ⟨rest, hrun, rfl⟩ := map_eq_some_iff.mp h
      have hrest : rest.2.2 = true := ih hrun
      exact hrest
    · rw [← some_inj.mp h]

/-- The loop over a range returns exactly if the range ends below 65535. It has gone once
through each of its ports then. -/
theorem upTo_iff {out : List Nat × σ × Bool} :
    (∃ rounds, upTo r.last body rounds r.first s = some out) ↔
      r.last ≠ 65535 ∧ out = (r.ports, r.ports.foldl (fun s port => (body port s).1) s, true) := by
  have hbound := r.last_lt
  constructor
  · rintro ⟨rounds, h⟩
    have hlast : r.last ≠ 65535 := by
      intro htop
      rw [htop] at h
      have hleft := upTo_goes hgoes h
      rw [upTo_top r.first_lt h] at hleft
      cases hleft
    exact ⟨hlast, (upTo_eq_some (by omega) h).trans (through_goes hgoes _ s)⟩
  · rintro ⟨hlast, rfl⟩
    exact ⟨_, (upTo_of_lt (by omega) (Nat.lt_succ_self _)).trans
      (congrArg some (through_goes hgoes _ s))⟩

end

end Loops

def ptProtoTcp : Nat := 1

def ptProtoUdp : Nat := 2

def ptProtoAll : Nat := 3

def ptMaxExpected : Nat := 1000

def ptMaxPorts : Nat := 1000

def checkPort (port proto : Nat) : Bool :=
  proto.testBit 0 && [21, 6667, 1720, 1723, 80].contains port ||
    proto.testBit 1 && [69, 161, 162, 517, 518, 5060].contains port

/-- The body of the loop in `count_outport`. -/
def countPort (proto port validPorts : Nat) : Nat × Bool :=
  (if checkPort port proto then validPorts else validPorts + 1, true)

/-- `count_inport` for one entry: at most a thousand in-ports are opened. -/
def countInport (r : Range) : Range :=
  if h : ptMaxExpected < r.last + 1 - r.first then
    { r with last := r.first + ptMaxExpected - 1, last_lt := by have := r.last_lt; omega }
  else r

/-- What the tuple and the mask of a helper select; `none` for any protocol. -/
structure Helper where
  port : Nat
  protonum : Option Nat
  deriving DecidableEq

def helper (proto port : Nat) : Helper where
  port := port
  protonum := if proto = ptProtoTcp then some 6 else if proto = ptProtoUdp then some 17 else none

/-- The word in `outport` after a helper was registered. -/
def settled (proto : Nat) : Nat :=
  if proto = ptProtoTcp ∨ proto = ptProtoUdp then proto else ptProtoAll

/-- The word in `outport`, and the helpers that are registered, in the order of the
array. -/
structure Registering where
  proto : Nat
  helpers : List Helper
  going : Bool

/-- The body of the loop in `init`. The outcome of each call of `nf_conntrack_helper_register` is
given. The array has room for so many helpers, which the loop does not look at; it ends here with a
write behind it. -/
def registerPort (room : Nat) (registers : Nat → Bool) (port : Nat) (s : Registering) :
    Registering × Bool :=
  if checkPort port s.proto then (s, true)
  else if room ≤ s.helpers.length then (⟨settled s.proto, s.helpers, false⟩, false)
  else if registers s.helpers.length then
    (⟨settled s.proto, s.helpers ++ [helper s.proto port], true⟩, true)
  else (⟨settled s.proto, s.helpers, false⟩, false)

/-- The loops of `count_outport`, for ranges that end below 65535, and the limit behind them: the
number of helpers that `init` allocates. -/
def countOutport (entries : List Range) : Nat :=
  min (entries.foldl (fun validPorts r =>
    r.ports.foldl (fun validPorts port => (countPort r.proto port validPorts).1) validPorts) 0)
    ptMaxPorts

/-- The helpers of these ports, with the word in `outport` as the loop has set it. -/
def helpersOf : Nat → List Nat → List Helper
  | _, [] => []
  | proto, port :: ports =>
    if checkPort port proto then helpersOf proto ports
    else helper proto port :: helpersOf (settled proto) ports

/-- The helpers registered for the entries. -/
def registered (entries : List Range) : List Helper :=
  entries.flatMap fun r => helpersOf r.proto r.ports

private theorem checkPort_settled {port proto : Nat} (h : checkPort port proto = true) :
    checkPort port (settled proto) = true := by
  unfold settled
  split
  · exact h
  · have hboth : checkPort port ptProtoAll = true := by
      simp only [checkPort, Bool.or_eq_true, Bool.and_eq_true] at h
      rcases h with ⟨-, h⟩ | ⟨-, h⟩
      · simp only [checkPort, h, ptProtoAll]
        rfl
      · simp only [checkPort, h, ptProtoAll, Bool.or_eq_true]
        exact .inr rfl
    exact hboth

/-- No more helpers are registered for a range than ports were counted. -/
theorem helpersOf_length_le (counted proto : Nat) (hproto : ∀ port, checkPort port counted = true →
    checkPort port proto = true) (ports : List Nat) (validPorts : Nat) :
    validPorts + (helpersOf proto ports).length ≤
      ports.foldl (fun validPorts port => (countPort counted port validPorts).1) validPorts := by
  induction ports generalizing proto validPorts with
  | nil => exact le_refl _
  | cons port ports ih =>
    rw [foldl_cons, helpersOf, countPort]
    by_cases hcounted : checkPort port counted = true
    · simpa [hcounted, hproto port hcounted] using ih proto hproto validPorts
    · have hnext := ih (settled proto) (fun port h => checkPort_settled (hproto port h))
        (validPorts + 1)
      have hsame := ih proto hproto (validPorts + 1)
      simp only [hcounted, Bool.false_eq_true, if_false] at hnext hsame ⊢
      split
      · omega
      · rw [length_cons]
        omega

private theorem registered_length_le (entries : List Range) (validPorts : Nat) :
    validPorts + (registered entries).length ≤ entries.foldl (fun validPorts r =>
      r.ports.foldl (fun validPorts port => (countPort r.proto port validPorts).1) validPorts)
      validPorts := by
  induction entries generalizing validPorts with
  | nil => exact le_refl _
  | cons r rest ih =>
    have hfirst := helpersOf_length_le r.proto r.proto (fun _ h => h) r.ports validPorts
    have hrest := ih (r.ports.foldl (fun validPorts port => (countPort r.proto port validPorts).1)
      validPorts)
    rw [foldl_cons, registered, flatMap_cons, length_append]
    rw [registered] at hrest
    omega

/-- The loop goes through the ports exactly if the helpers for them fit. -/
theorem through_registerPort (room : Nat) (ports : List Nat) (proto : Nat) (helpers : List Helper)
    (going : Bool) :
    (through (registerPort room fun _ => true) ports ⟨proto, helpers, going⟩).2.2 = true ↔
      helpersOf proto ports = [] ∨ helpers.length + (helpersOf proto ports).length ≤ room := by
  induction ports generalizing proto helpers going with
  | nil => simp [through, helpersOf]
  | cons port ports ih =>
    rw [through, registerPort, helpersOf]
    by_cases hknown : checkPort port proto = true
    · simp only [hknown, if_true]
      exact ih proto helpers going
    · simp only [hknown, Bool.false_eq_true, if_false]
      by_cases hfull : room ≤ helpers.length
      · simp only [hfull, if_true, Bool.false_eq_true, if_false, false_iff, length_cons]
        simp
        omega
      · simp only [hfull, if_false, if_true, ih, length_append, length_cons, length_nil]
        cases helpersOf (settled proto) ports with
        | nil => simp; omega
        | cons => simp; omega

/-- The body of the loop in `trigger_ports`: the expectations made so far, with their
protocols. -/
def triggerPort (alloc : Nat → Bool) (inProto protonum port : Nat) (opened : List (Nat × Nat)) :
    List (Nat × Nat) × Bool :=
  if alloc opened.length then
    (opened ++ [(port, if inProto = ptProtoTcp then 6
      else if inProto = ptProtoUdp then 17 else protonum)], true)
  else (opened, false)

/-- The loop over the range goes once through these ports and is left by its condition. -/
def Covers {σ : Type} (r : Range) (body : Nat → σ → σ × Bool) (s : σ) (ports : List Nat) : Prop :=
  ∃ rounds out, upTo r.last body rounds r.first s = some (ports, out, true)

section
variable {σ : Type} {body : Nat → σ → σ × Bool} {s : σ}

private theorem covers_iff {ports : List Nat} (hgoes : ∀ port s, (body port s).2 = true) :
    Covers r body s ports ↔ r.last ≠ 65535 ∧ ports = r.ports := by
  rw [Covers, exists_comm]
  simp only [upTo_iff hgoes, Prod.mk.injEq]
  simp

private theorem through_ports (ports : List Nat) (s : σ) (h : (through body ports s).2.2 = true) :
    (through body ports s).1 = ports := by
  induction ports generalizing s with
  | nil => rfl
  | cons port ports ih =>
    rw [through] at h ⊢
    split at h
    next hgoes => rw [if_pos hgoes, ih _ h]
    next => cases h

/-- A body that can return covers a range that ends below 65535 if it goes on at each port. -/
theorem covers_ports_iff : Covers r body s r.ports ↔
    r.last ≠ 65535 ∧ (through body r.ports s).2.2 = true := by
  have hbound := r.last_lt
  constructor
  · rintro ⟨rounds, out, h⟩
    have hlast : r.last ≠ 65535 := by
      intro htop
      rw [htop] at h
      cases upTo_top r.first_lt h
    have hout := upTo_eq_some (by omega) h
    exact ⟨hlast, (congrArg (·.2.2) hout).symm⟩
  · rintro ⟨hlast, hleft⟩
    refine ⟨_, (through body r.ports s).2.1, (upTo_of_lt (by omega) (Nat.lt_succ_self _)).trans ?_⟩
    refine congrArg some (Prod.ext (through_ports r.ports s hleft) (Prod.ext rfl hleft))

end

/-- The registration loop over an entry, behind those before it. -/
theorem covers_register_iff (before after : List Range) :
    Covers r (registerPort (countOutport (before ++ r :: after)) fun _ => true)
        ⟨r.proto, registered before, true⟩ r.ports ↔
      r.last ≠ 65535 ∧ (helpersOf r.proto r.ports = [] ∨
        (registered before).length + (helpersOf r.proto r.ports).length ≤ ptMaxPorts) := by
  have hcounted := registered_length_le (before ++ r :: after) 0
  have htotal : (registered (before ++ r :: after)).length = (registered before).length +
      ((helpersOf r.proto r.ports).length + (registered after).length) := by
    simp [registered]
  rw [covers_ports_iff, through_registerPort]
  refine and_congr_right fun _ => or_congr_right ?_
  unfold countOutport
  omega

/-- While memory lasts, a loop goes once through each port of a configured range and returns
exactly if the range ends below 65535; the loop that registers helpers exactly if moreover those of
the range, if any, and of the entries before it fit into an array of a thousand; and the loop over
the in-ports exactly if the range moreover has no more than a thousand ports. -/
theorem port_loops_iff (r : Range) (before after : List Range) (validPorts protonum : Nat) :
    (r.ports.Nodup ∧ ∀ port, port ∈ r.ports ↔ r.first ≤ port ∧ port ≤ r.last) ∧
    (Covers r (countPort r.proto) validPorts r.ports ↔ r.last ≠ 65535) ∧
    (Covers r (registerPort (countOutport (before ++ r :: after)) fun _ => true)
        ⟨r.proto, registered before, true⟩ r.ports ↔
      r.last ≠ 65535 ∧ (helpersOf r.proto r.ports = [] ∨
        (registered before).length + (helpersOf r.proto r.ports).length ≤ ptMaxPorts)) ∧
    (Covers (countInport r) (triggerPort (fun _ => true) r.proto protonum) [] r.ports ↔
      r.last ≠ 65535 ∧ r.last < r.first + ptMaxExpected) := by
  refine ⟨⟨nodup_range', fun port => ?_⟩, ?_, covers_register_iff before after, ?_⟩
  · rw [Range.ports, mem_range'_1]
    omega
  · rw [covers_iff fun _ _ => rfl, and_iff_left rfl]
  · rw [covers_iff fun _ _ => rfl, countInport]
    have hmax : ptMaxExpected = 1000 := rfl
    split
    next hmany =>
      have hother : r.ports ≠ range' r.first (r.first + ptMaxExpected - 1 + 1 - r.first) := by
        intro hsame
        have hlength := congrArg length hsame
        rw [Range.ports, length_range', length_range'] at hlength
        omega
      exact iff_of_false (fun h => hother h.2) (by omega)
    next hfew =>
      rw [and_iff_left rfl]
      omega

/-- The counting loop never leaves a range that ends with 65535, and one of more than a thousand
ports is registered behind the array. -/
theorem top_range_endless :
    (¬∃ rounds, upTo 65535 (countPort 1) rounds 65000 0 ≠ none) ∧
    ¬Covers ⟨1, 2000, 4000, by decide, by decide⟩
      (registerPort (countOutport [⟨1, 2000, 4000, by decide, by decide⟩]) fun _ => true)
      ⟨1, [], true⟩ (range' 2000 2001) := by
  constructor
  · rintro ⟨rounds, hends⟩
    obtain ⟨out, hout⟩ := ne_none_iff_exists'.mp hends
    have hleft := upTo_goes (fun _ _ => rfl) hout
    rw [upTo_top (by decide) hout] at hleft
    cases hleft
  · have hmany := covers_register_iff (r := ⟨1, 2000, 4000, by decide, by decide⟩) [] []
    intro hcovers
    exact absurd (hmany.mp hcovers).2 (by decide +kernel)

/-! ### The trigger -/

structure Tuple where
  srcIp : Nat
  dstIp : Nat
  dstPort : Nat
  protonum : Nat

structure Conn where
  tuplehash : Bool → Tuple
  srcNat : Bool
  expecting : Nat

/-- All of them take any source and are permanent. -/
structure Expect where
  dstIp : Nat
  dstPort : Nat
  protonum : Nat
  savedProto : Nat
  dir : Bool

/-- Where `nf_nat_follow_master` leads what meets the expectation. -/
def Conn.followMaster (ct : Conn) (exp : Expect) : Nat × Nat :=
  ((ct.tuplehash !exp.dir).srcIp, exp.savedProto)

structure Entry where
  outport : Range
  inport : Range
  iface : Option String

/-- The direction, whether `ctinfo` is that of an established connection, and the device out. -/
structure Packet where
  dir : Bool
  established : Bool
  dev : String

section Trigger
variable (ct : Conn) (p : Packet)

def expectOf (opened : Nat × Nat) : Expect :=
  ⟨(ct.tuplehash !p.dir).dstIp, opened.1, opened.2, opened.1, !p.dir⟩

/-- `trigger_ports` with memory for all expectations; `none` if it goes on after the rounds. -/
def triggerPorts (rounds : Nat) (r : Range) : Option (List Expect) :=
  (upTo r.last (triggerPort (fun _ => true) r.proto (ct.tuplehash p.dir).protonum) rounds
    r.first []).map fun out => out.2.1.map (expectOf ct p)

def oproto : Nat :=
  if (ct.tuplehash p.dir).protonum = 6 then ptProtoTcp
  else if (ct.tuplehash p.dir).protonum = 17 then ptProtoUdp else 0

/-- The tests in the loop of `help`. -/
def Entry.Matches (t : Entry) : Prop :=
  oproto ct p &&& t.outport.proto ≠ 0 ∧ t.outport.first ≤ (ct.tuplehash p.dir).dstPort ∧
    (ct.tuplehash p.dir).dstPort ≤ t.outport.last ∧ (t.iface = none ∨ t.iface = some p.dev)

instance (t : Entry) : Decidable (t.Matches ct p) :=
  inferInstanceAs (Decidable (_ ∧ _))

/-- A turn of the loop. -/
def helpEntry (rounds : Nat) (t : Entry) : Option (List Expect) :=
  if t.Matches ct p then triggerPorts ct p rounds t.inport else some []

def helpLoop (rounds : Nat) : List Entry → Option (List Expect)
  | [] => some []
  | t :: rest => do
    let made ← helpEntry ct p rounds t
    let more ← helpLoop rounds rest
    return made ++ more

/-- The expectations that `help` makes. -/
def help (rounds : Nat) (entries : List Entry) : Option (List Expect) :=
  if ct.expecting ≠ 0 ∨ ct.srcNat = false then some []
  else if (ct.tuplehash p.dir).protonum = 6 then
    if p.established then helpLoop ct p rounds entries else some []
  else if (ct.tuplehash p.dir).protonum = 17 then helpLoop ct p rounds entries
  else some []

def Range.protonums (r : Range) : List Nat :=
  if r.proto = ptProtoTcp then [6] else if r.proto = ptProtoUdp then [17] else [6, 17]

/-- The expectation is one for an in-port and a protocol of an entry that matches. -/
def Wanted (entries : List Entry) (exp : Expect) : Prop :=
  ∃ t ∈ entries, t.Matches ct p ∧
    ∃ port ∈ t.inport.ports, ∃ protonum ∈ t.inport.protonums, exp = expectOf ct p (port, protonum)

/-- The protocol for which `trigger_ports` opens the range. -/
def inProtonum (r : Range) : Nat :=
  if r.proto = ptProtoTcp then 6 else if r.proto = ptProtoUdp then 17
  else (ct.tuplehash p.dir).protonum

def opened (t : Entry) : List Expect :=
  if t.Matches ct p then
    t.inport.ports.map fun port => expectOf ct p (port, inProtonum ct p t.inport)
  else []

variable {ct p} {entries : List Entry}

theorem foldl_triggerPort (r : Range) (ports : List Nat) (s : List (Nat × Nat)) :
    ports.foldl (fun s port =>
        (triggerPort (fun _ => true) r.proto (ct.tuplehash p.dir).protonum port s).1) s =
      s ++ ports.map fun port => (port, inProtonum ct p r) := by
  induction ports generalizing s with
  | nil => simp
  | cons port ports ih =>
    rw [foldl_cons, ih]
    simp [triggerPort, inProtonum]

private theorem triggerPorts_eq (hlast : r.last ≠ 65535) :
    triggerPorts ct p 65537 r =
      some (r.ports.map fun port => expectOf ct p (port, inProtonum ct p r)) := by
  have hbound := r.last_lt
  rw [triggerPorts, upTo_of_lt (by omega) (by omega), through_goes (fun _ _ => rfl), map_some,
    foldl_triggerPort]
  simp [Range.ports]

theorem triggerPorts_some {made : List Expect} (h : triggerPorts ct p rounds r = some made) :
    r.last ≠ 65535 ∧ made = r.ports.map fun port => expectOf ct p (port, inProtonum ct p r) := by
  obtain ⟨out, hout, rfl⟩ := map_eq_some_iff.mp h
  obtain ⟨hlast, rfl⟩ := (upTo_iff fun _ _ => rfl).mp ⟨rounds, hout⟩
  refine ⟨hlast, ?_⟩
  rw [foldl_triggerPort]
  simp

private theorem helpLoop_eq (h : ∀ t ∈ entries, t.Matches ct p → t.inport.last ≠ 65535) :
    helpLoop ct p 65537 entries = some (entries.flatMap (opened ct p)) := by
  induction entries with
  | nil => rfl
  | cons t rest ih =>
    obtain ⟨ht, hrest⟩ := forall_mem_cons.mp h
    rw [helpLoop, ih hrest, flatMap_cons, helpEntry, opened]
    split_ifs with hmatch
    · rw [triggerPorts_eq (ht hmatch)]
      rfl
    · rfl

theorem helpLoop_some {made : List Expect} (h : helpLoop ct p rounds entries = some made) :
    (∀ t ∈ entries, t.Matches ct p → t.inport.last ≠ 65535) ∧
      made = entries.flatMap (opened ct p) := by
  induction entries generalizing made with
  | nil => simpa [helpLoop, eq_comm] using h
  | cons t rest ih =>
    simp only [helpLoop, Option.bind_eq_bind, Option.bind_eq_some_iff, Option.pure_def,
      Option.some_inj] at h
    obtain ⟨made, hmade, more, hmore, rfl⟩ := h
    obtain ⟨hrest, rfl⟩ := ih hmore
    rw [forall_mem_cons, flatMap_cons, opened]
    rw [helpEntry] at hmade
    split_ifs at hmade ⊢ with hmatch
    · obtain ⟨hlast, rfl⟩ := triggerPorts_some hmade
      exact ⟨⟨fun _ => hlast, hrest⟩, rfl⟩
    · cases hmade
      exact ⟨⟨fun h => absurd h hmatch, hrest⟩, rfl⟩

theorem mem_opened_iff {exp : Expect} : exp ∈ entries.flatMap (opened ct p) ↔
    ∃ t ∈ entries, t.Matches ct p ∧
      ∃ port ∈ t.inport.ports, exp = expectOf ct p (port, inProtonum ct p t.inport) := by
  rw [mem_flatMap]
  refine exists_congr fun t => and_congr_right fun _ => ?_
  rw [opened]
  split_ifs with hmatch
  · simp [hmatch, eq_comm]
  · simp [hmatch]

variable (ct p)

def otherProtonum : Nat :=
  if (ct.tuplehash p.dir).protonum = 6 then 17 else 6

variable {ct p}

section
variable (hconn : (ct.tuplehash p.dir).protonum = 6 ∨ (ct.tuplehash p.dir).protonum = 17)
include hconn

private theorem protonums_eq_iff (r : Range) :
    r.protonums = [otherProtonum ct p] ↔ inProtonum ct p r = otherProtonum ct p := by
  grind [Range.protonums, inProtonum, otherProtonum]

private theorem mem_protonums_iff (r : Range) {protonum : Nat} :
    protonum ∈ r.protonums ↔ protonum = inProtonum ct p r ∨
      protonum = otherProtonum ct p ∧ r.proto ≠ ptProtoTcp ∧ r.proto ≠ ptProtoUdp := by
  grind [Range.protonums, inProtonum, otherProtonum]

/-- A range with a protocol of its own is opened for it; any other one is opened for the protocol
of the packet only. -/
theorem exact_iff :
    (∀ exp, exp ∈ entries.flatMap (opened ct p) ↔ Wanted ct p entries exp) ↔
      ∀ t ∈ entries, t.Matches ct p → t.inport.proto = ptProtoTcp ∨ t.inport.proto = ptProtoUdp ∨
        ∀ port ∈ t.inport.ports, ∃ t' ∈ entries, t'.Matches ct p ∧ port ∈ t'.inport.ports ∧
          t'.inport.protonums = [otherProtonum ct p] := by
  constructor
  · intro hexact t ht hmatch
    by_cases htcp : t.inport.proto = ptProtoTcp
    · exact .inl htcp
    by_cases hudp : t.inport.proto = ptProtoUdp
    · exact .inr (.inl hudp)
    refine .inr (.inr fun port hport => ?_)
    have hmem : otherProtonum ct p ∈ t.inport.protonums :=
      (mem_protonums_iff hconn _).mpr (.inr ⟨rfl, htcp, hudp⟩)
    have hwanted := (hexact _).mpr ⟨t, ht, hmatch, port, hport, _, hmem, rfl⟩
    obtain ⟨t', ht', hmatch', port', hport', heq⟩ := mem_opened_iff.mp hwanted
    injection heq with _ hports hprotonum
    obtain rfl : port = port' := hports
    exact ⟨t', ht', hmatch', hport', (protonums_eq_iff hconn _).mpr hprotonum.symm⟩
  · intro hcovered exp
    rw [mem_opened_iff]
    constructor
    · rintro ⟨t, ht, hmatch, port, hport, rfl⟩
      exact ⟨t, ht, hmatch, port, hport, _, (mem_protonums_iff hconn _).mpr (.inl rfl), rfl⟩
    · rintro ⟨t, ht, hmatch, port, hport, protonum, hmem, rfl⟩
      rcases (mem_protonums_iff hconn _).mp hmem with rfl | ⟨rfl, htcp, hudp⟩
      · exact ⟨t, ht, hmatch, port, hport, rfl⟩
      · rcases hcovered t ht hmatch with h | h | h
        · exact absurd h htcp
        · exact absurd h hudp
        · obtain ⟨t', ht', hmatch', hport', hother⟩ := h port hport
          rw [← (protonums_eq_iff hconn _).mp hother]
          exact ⟨t', ht', hmatch', port, hport', rfl⟩

end

end Trigger

/-- For a packet of a source-translated connection without expectations, TCP once established:
`help` returns with exactly the expectations that are wanted, all leading back to the sender,
exactly if no in-range of an entry that matches ends with 65535, and each of its ports is opened
for the other protocol by an entry with that protocol if it is for both. -/
theorem trigger_effect_iff (entries : List Entry) (ct : Conn) (p : Packet)
    (hfresh : ct.expecting = 0) (hnat : ct.srcNat = true)
    (hestablished : (ct.tuplehash p.dir).protonum = 6 → p.established = true) :
    (∃ rounds made, help ct p rounds entries = some made ∧
        (∀ exp, exp ∈ made ↔ Wanted ct p entries exp) ∧
        ∀ exp ∈ made, ct.followMaster exp = ((ct.tuplehash p.dir).srcIp, exp.dstPort)) ↔
      ∀ t ∈ entries, t.Matches ct p → t.inport.last ≠ 65535 ∧
        (t.inport.proto = ptProtoTcp ∨ t.inport.proto = ptProtoUdp ∨
          ∀ port ∈ t.inport.ports, ∃ t' ∈ entries, t'.Matches ct p ∧ port ∈ t'.inport.ports ∧
            t'.inport.protonums = [otherProtonum ct p]) := by
  by_cases hconn : (ct.tuplehash p.dir).protonum = 6 ∨ (ct.tuplehash p.dir).protonum = 17
  · have hhelp (rounds : Nat) : help ct p rounds entries = helpLoop ct p rounds entries := by
      rw [help, if_neg (by simp [hfresh, hnat])]
      rcases hconn with htcp | hudp
      · rw [if_pos htcp, if_pos (hestablished htcp)]
      · rw [if_neg (by omega), if_pos hudp]
    have hback : ∀ exp ∈ entries.flatMap (opened ct p),
        ct.followMaster exp = ((ct.tuplehash p.dir).srcIp, exp.dstPort) := by
      intro exp hexp
      obtain ⟨t, -, -, port, -, rfl⟩ := mem_opened_iff.mp hexp
      simp [Conn.followMaster, expectOf]
    simp only [hhelp]
    constructor
    · rintro ⟨rounds, made, hmade, hexact, -⟩ t ht hmatch
      obtain ⟨hends, rfl⟩ := helpLoop_some hmade
      exact ⟨hends t ht hmatch, (exact_iff hconn).mp hexact t ht hmatch⟩
    · intro h
      refine ⟨65537, _, helpLoop_eq fun t ht hmatch => (h t ht hmatch).1, ?_, hback⟩
      exact (exact_iff hconn).mpr fun t ht hmatch => (h t ht hmatch).2
  · have hnone (t : Entry) : ¬t.Matches ct p := by
      obtain ⟨htcp, hudp⟩ := not_or.mp hconn
      rintro ⟨hproto, -⟩
      simp [oproto, htcp, hudp] at hproto
    refine iff_of_true ⟨0, [], ?_, ?_, by simp⟩ fun t _ hmatch => absurd hmatch (hnone t)
    · obtain ⟨htcp, hudp⟩ := not_or.mp hconn
      rw [help, if_neg (by simp [hfresh, hnat]), if_neg htcp, if_neg hudp]
    · simp [Wanted, hnone]

/-- A UDP flow of 192.168.1.2 to port 7000, behind the gateway's 10.0.0.1. -/
def gameConn : Conn where
  tuplehash dir := if dir then ⟨0x08080808, 0x0A000001, 1000, 17⟩
    else ⟨0xC0A80102, 0x08080808, 7000, 17⟩
  srcNat := true
  expecting := 0

private theorem gamePort_lt : 7000 < 65536 := by decide

def gameEntry (inProto : Nat) : Entry where
  outport := ⟨ptProtoAll, 7000, 7000, gamePort_lt, gamePort_lt⟩
  inport := ⟨inProto, 7000, 7000, gamePort_lt, gamePort_lt⟩
  iface := none

theorem udp_port_opened :
    (help gameConn ⟨false, true, "nas0"⟩ 2 [gameEntry 2]).isSome ∧
    ∃ rounds made, help gameConn ⟨false, true, "nas0"⟩ rounds [gameEntry 2] = some made ∧
      (∀ exp, exp ∈ made ↔ Wanted gameConn ⟨false, true, "nas0"⟩ [gameEntry 2] exp) ∧
      ∀ exp ∈ made, gameConn.followMaster exp = (0xC0A80102, exp.dstPort) := by
  refine ⟨by decide, (trigger_effect_iff _ _ _ rfl rfl (by decide)).mpr ?_⟩
  intro t ht _
  rw [mem_singleton.mp ht]
  exact ⟨by decide, .inr (.inl rfl)⟩

/-- With the in-protocol 0, which stands for both, what is made is never what is wanted: nothing is
opened for TCP. -/
theorem tcp_port_not_opened :
    ¬∃ rounds made, help gameConn ⟨false, true, "nas0"⟩ rounds [gameEntry 0] = some made ∧
      ∀ exp, exp ∈ made ↔ Wanted gameConn ⟨false, true, "nas0"⟩ [gameEntry 0] exp := by
  rintro ⟨rounds, made, hmade, hexact⟩
  obtain ⟨-, rfl⟩ := helpLoop_some hmade
  have hcovered := (exact_iff (.inr rfl)).mp hexact (gameEntry 0) mem_cons_self (by decide)
  rcases hcovered with h | h | h
  · exact absurd h (by decide)
  · exact absurd h (by decide)
  · obtain ⟨t, ht, -, -, hother⟩ := h 7000 (by decide)
    rw [mem_singleton.mp ht] at hother
    exact absurd hother (by decide)

end EchoLife.Netfilter.PortTrigger
