import EchoLife.Bridge.Snooping

/-!
The snooping list with its expiry timer. A frame makes a list of calls to
`br_igmp_snooping_add` and `br_igmp_snooping_del` that does not depend on the
entries; a call for a new member also starts the timer, once.
-/

namespace EchoLife.Bridge

open List Run

/-- A call of the IGMP branch, for the port that the frame came in on. -/
inductive TableCall where
  | add (grpMac hostMac : Mac)
  | del (grpMac hostMac : Mac)
  deriving DecidableEq

def grecCalls (skb : Frame) (grec : Nat) : List TableCall :=
  let nsrcs := (skb.data (grec + 2)).toNat * 256 + (skb.data (grec + 3)).toNat
  let mcMac := groupMac (skb.data (grec + 5)) (skb.data (grec + 6)) (skb.data (grec + 7))
  let grecType := skb.data grec
  if grecType = 2 ∨ grecType = 4 ∨ (nsrcs ≠ 0 ∧ grecType = 1) ∨
      (nsrcs ≠ 0 ∧ grecType = 3) ∨ grecType = 5 then [.add mcMac skb.hSource]
  else if (grecType = 3 ∧ nsrcs = 0) ∨ (nsrcs = 0 ∧ grecType = 1) ∨
      grecType = 6 then [.del mcMac skb.hSource]
  else []

def grecsCalls (skb : Frame) : Nat → Nat → List TableCall
  | 0, _ => []
  | ngrec + 1, grec =>
    let nsrcs := (skb.data (grec + 2)).toNat * 256 + (skb.data (grec + 3)).toNat
    grecCalls skb grec ++ grecsCalls skb ngrec (grec + 8 + nsrcs * 4)

def igmpCalls (skb : Frame) (dest : Mac) : List TableCall :=
  let ipHeadLen := (skb.data 0).toNat % 16 * 4
  let type := skb.data ipHeadLen
  if type = 0x16 ∨ type = 0x12 then [.add dest skb.hSource]
  else if type = 0x22 then
    let ngrec := (skb.data (ipHeadLen + 6)).toNat * 256 + (skb.data (ipHeadLen + 7)).toNat
    grecsCalls skb ngrec (ipHeadLen + 8)
  else if type = 0x17 then
    [.del (groupMac (skb.data (ipHeadLen + 5)) (skb.data (ipHeadLen + 6))
      (skb.data (ipHeadLen + 7))) skb.hSource]
  else []

/-- The calls of `br_igmp_snooping_forward` for a frame that came in on a port. -/
def forwardCalls (enable : Int) (skb : Frame) (dest : Mac) : List TableCall :=
  if enable = 0 ∨ skb.protocol ≠ ethPIp then []
  else if enable = 1 ∧ (dest = upnpMac ∨ dest = ripv2Mac) then []
  else if skb.data 9 = ipprotoIgmp then igmpCalls skb dest
  else []

def TableCall.onEntries (env : Env) (devPort : Nat) : TableCall → List Entry → List Entry
  | .add grpMac hostMac, entries =>
    brIgmpSnoopingAdd env devPort grpMac hostMac entries
  | .del grpMac hostMac, entries => brIgmpSnoopingDel devPort grpMac hostMac entries

section
variable (env : Env) (devPort : Nat) (skb : Frame)

private theorem applyGrec_calls (grec : Nat) (entries : List Entry) :
    applyGrec env devPort skb grec entries =
      run (TableCall.onEntries env devPort) (grecCalls skb grec) entries := by
  unfold applyGrec grecCalls
  simp only
  split
  · rfl
  split
  · rfl
  · rw [run_nil]

private theorem applyGrecs_calls (ngrec grec : Nat) (entries : List Entry) :
    applyGrecs env devPort skb ngrec grec entries =
      run (TableCall.onEntries env devPort) (grecsCalls skb ngrec grec) entries := by
  induction ngrec generalizing grec entries with
  | zero => rfl
  | succ ngrec ih =>
    simp only [applyGrecs, grecsCalls]
    rw [ih, applyGrec_calls, run_append]

section

variable (br : NetBridge) (table : Table) (dest : Mac) (forward : Bool)

theorem forward_entries_calls (hport : skb.brPort = some devPort) :
    (brIgmpSnoopingForward env br table skb dest forward).entries =
      run (TableCall.onEntries env devPort) (forwardCalls table.enable skb dest)
        table.entries := by
  simp only [brIgmpSnoopingForward, forwardCalls]
  split
  · rfl
  split
  · rfl
  split
  · simp only [hport, snoopIgmp, igmpCalls]
    split
    · rfl
    split
    · exact applyGrecs_calls env devPort skb _ _ table.entries
    split
    · rfl
    · rfl
  · rfl

theorem forward_entries_host (hport : skb.brPort = none) :
    (brIgmpSnoopingForward env br table skb dest forward).entries = table.entries := by
  simp only [brIgmpSnoopingForward]
  split
  · rfl
  split
  · rfl
  split
  · simp only [hport]
  · rfl

end

end

/-- `igmp_snooping_list`: the table, when the timer expires if it is pending, and the flag that it
was started. -/
structure SnoopingList where
  table : Table
  igmpTimer : Option Nat
  igmpStartTimer : Bool

def igmpTimerCheckTimeout : Nat := 10

namespace SnoopingList

def init : SnoopingList :=
  ⟨⟨[], 0⟩, none, false⟩

def withEntries (s : SnoopingList) (entries : List Entry) : SnoopingList :=
  { s with table := { s.table with entries := entries } }

variable (env : Env) (devPort : Nat)

def startTimer (s : SnoopingList) : SnoopingList :=
  if s.igmpStartTimer then s
  else
    { s with
      igmpTimer := some (env.jiffies + igmpTimerCheckTimeout * hz)
      igmpStartTimer := true }

def add (grpMac hostMac : Mac) (s : SnoopingList) : SnoopingList :=
  if grpMac = upnpMac ∨ grpMac = ripv2Mac then s
  else
    let (entries, updated) :=
      brIgmpSnoopingUpdate env devPort grpMac hostMac s.table.entries
    if updated then s.withEntries entries
    else if env.kmallocOk then
      (s.withEntries (⟨some devPort, grpMac, hostMac, env.expiry⟩ :: entries)).startTimer env
    else s.withEntries entries

def del (grpMac hostMac : Mac) (s : SnoopingList) : SnoopingList :=
  s.withEntries (brIgmpSnoopingDel devPort grpMac hostMac s.table.entries)

def call : TableCall → SnoopingList → SnoopingList
  | .add grpMac hostMac, s => s.add env devPort grpMac hostMac
  | .del grpMac hostMac, s => s.del devPort grpMac hostMac

def forward (skb : Frame) (s : SnoopingList) : SnoopingList :=
  run (call env devPort) (forwardCalls s.table.enable skb skb.hDest) s

/-- `br_igmp_snooping_clear` stops the timer and leaves the flag. -/
def clear (s : SnoopingList) : SnoopingList :=
  { s.withEntries [] with igmpTimer := none }

/-- `br_igmp_snooping_query_timeout` when the pending timer's time has come; that sets it again.
-/
def expire (s : SnoopingList) : SnoopingList :=
  match s.igmpTimer with
  | none => s
  | some expires =>
    if expires ≤ env.jiffies then
      { s.withEntries (brIgmpSnoopingQueryTimeout env s.table.entries) with
        igmpTimer := some (env.jiffies + igmpTimerCheckTimeout * hz) }
    else s

def setEnable (enable : Int) (s : SnoopingList) : SnoopingList :=
  { s with table := { s.table with enable := enable } }

private theorem startTimer_table (s : SnoopingList) : (s.startTimer env).table = s.table := by
  unfold startTimer
  split
  · rfl
  · rfl

section

variable (env : Env) (devPort : Nat)

private theorem call_table (c : TableCall) (s : SnoopingList) :
    (s.call env devPort c).table =
      { s.table with entries := c.onEntries env devPort s.table.entries } := by
  cases c with
  | add grpMac hostMac =>
    simp only [call, add, TableCall.onEntries, brIgmpSnoopingAdd]
    split
    · rfl
    split
    · rfl
    split
    · rw [startTimer_table]
      rfl
    · rfl
  | del grpMac hostMac => rfl

theorem run_call_table (calls : List TableCall) (s : SnoopingList) :
    (run (call env devPort) calls s).table =
      { s.table with
        entries := run (TableCall.onEntries env devPort) calls s.table.entries } := by
  induction calls generalizing s with
  | nil => rfl
  | cons c rest ih => rw [run_cons, ih, call_table, run_cons]

theorem forward_table (br : NetBridge) (skb : Frame)
    (s : SnoopingList) (hport : skb.brPort = some devPort) :
    (s.forward env devPort skb).table =
      { s.table with
        entries := (brIgmpSnoopingForward env br s.table skb skb.hDest true).entries } := by
  rw [forward_entries_calls env devPort skb br s.table skb.hDest true hport]
  exact run_call_table env devPort _ s

end

end SnoopingList

/-! ### Records of a report and the end of the packet -/

def ipHeadLen (skb : Frame) : Nat :=
  (skb.data 0).toNat % 16 * 4

def ngrecOf (skb : Frame) : Nat :=
  (skb.data (ipHeadLen skb + 6)).toNat * 256 + (skb.data (ipHeadLen skb + 7)).toNat

def nsrcsAt (skb : Frame) (grec : Nat) : Nat :=
  (skb.data (grec + 2)).toNat * 256 + (skb.data (grec + 3)).toNat

/-- The length in bytes of the record at `grec`, with its sources and its auxiliary data. -/
def recordLength (skb : Frame) (grec : Nat) : Nat :=
  8 + nsrcsAt skb grec * 4 + (skb.data (grec + 1)).toNat * 4

/-- Whether a record of this type and number of sources says that the host wants the group. Types
1 and 3 name the sources to be heard, 2 and 4 those not to be heard, 5 adds sources and 6 takes
some away. -/
def interest (grecType : UInt8) (nsrcs : Nat) : Option Bool :=
  if grecType ∈ [1, 3] then some (decide (0 < nsrcs))
  else if grecType ∈ [2, 4, 5] then some true
  else if grecType = 6 then some false
  else none

def applyRecord (env : Env) (devPort : Nat) (skb : Frame) (grec : Nat) (entries : List Entry) :
    List Entry :=
  let mcMac := groupMac (skb.data (grec + 5)) (skb.data (grec + 6)) (skb.data (grec + 7))
  match interest (skb.data grec) (nsrcsAt skb grec) with
  | some true => brIgmpSnoopingAdd env devPort mcMac skb.hSource entries
  | some false => brIgmpSnoopingDel devPort mcMac skb.hSource entries
  | none => entries

/-- Where the records begin that the loop applies. -/
def loopRecords (skb : Frame) : Nat → Nat → List Nat
  | 0, _ => []
  | ngrec + 1, grec => grec :: loopRecords skb ngrec (grec + 8 + nsrcsAt skb grec * 4)

/-- Where the records begin that are complete in `len` bytes. -/
def completeRecords (skb : Frame) (len : Nat) : Nat → Nat → List Nat
  | 0, _ => []
  | ngrec + 1, grec =>
    if grec + recordLength skb grec ≤ len then
      grec :: completeRecords skb len ngrec (grec + recordLength skb grec)
    else []

/-- The bytes that the branch for a report reads: two of the IP header, the type of the message and
its number of records, and of each record all but the length of its auxiliary data. -/
def reportReads (skb : Frame) : List Nat :=
  [0, 9, ipHeadLen skb, ipHeadLen skb + 6, ipHeadLen skb + 7] ++
    (loopRecords skb (ngrecOf skb) (ipHeadLen skb + 8)).flatMap
      (fun grec => grec :: range' (grec + 2) 6)

structure ReportRight (skb : Frame) (len : Nat) : Prop where
  inside : ∀ i ∈ reportReads skb, i < len
  complete : loopRecords skb (ngrecOf skb) (ipHeadLen skb + 8) =
    completeRecords skb len (ngrecOf skb) (ipHeadLen skb + 8)

/-- All the records are in `len` bytes, and only the last of them may have auxiliary data. -/
def Whole (skb : Frame) (len : Nat) : Nat → Nat → Prop
  | 0, _ => True
  | ngrec + 1, grec =>
    grec + recordLength skb grec ≤ len ∧
      (ngrec = 0 ∨ skb.data (grec + 1) = 0 ∧ Whole skb len ngrec (grec + recordLength skb grec))

section

variable {skb : Frame}

private theorem applyGrec_interest (env : Env) (devPort : Nat) (skb : Frame) (grec : Nat)
    (entries : List Entry) :
    applyGrec env devPort skb grec entries = applyRecord env devPort skb grec entries := by
  unfold applyGrec applyRecord interest nsrcsAt
  grind

/-- Each round applies the record where it stands. -/
theorem applyGrecs_records (env : Env) (devPort : Nat) (skb : Frame) (ngrec grec : Nat)
    (entries : List Entry) :
    applyGrecs env devPort skb ngrec grec entries =
      run (applyRecord env devPort skb) (loopRecords skb ngrec grec) entries := by
  induction ngrec generalizing grec entries with
  | zero => rfl
  | succ ngrec ih => rw [applyGrecs, ih, applyGrec_interest, loopRecords, run_cons, nsrcsAt]

theorem recordLength_of_no_aux {grec : Nat} (h : skb.data (grec + 1) = 0) :
    recordLength skb grec = 8 + nsrcsAt skb grec * 4 := by
  simp [recordLength, h]

/-- The loop stands at the complete records and at no others as long as no record but the last has
auxiliary data: the next record is sought right behind the sources. -/
theorem loopRecords_complete_iff (len ngrec grec : Nat) :
    loopRecords skb ngrec grec = completeRecords skb len ngrec grec ↔
      Whole skb len ngrec grec := by
  induction ngrec generalizing grec with
  | zero => exact iff_of_true rfl trivial
  | succ ngrec ih =>
    simp only [loopRecords, completeRecords, Whole]
    split
    next hin =>
      rw [cons.injEq, eq_self_iff_true, true_and, eq_true hin, true_and]
      by_cases haux : skb.data (grec + 1) = 0
      · rw [recordLength_of_no_aux haux, ← Nat.add_assoc, ih]
        cases ngrec with
        | zero => simp [Whole]
        | succ ngrec => simp [haux]
      · -- the two lists stand at different places, or there is no further record
        cases ngrec with
        | zero => simp [loopRecords, completeRecords]
        | succ ngrec =>
          have hpos : 0 < (skb.data (grec + 1)).toNat :=
            Nat.pos_of_ne_zero (fun h => haux (UInt8.toNat_inj.mp h))
          have hnext : grec + 8 + nsrcsAt skb grec * 4 ≠ grec + recordLength skb grec := by
            unfold recordLength
            omega
          simp only [loopRecords, completeRecords, haux, Nat.succ_ne_zero, false_and, or_self,
            iff_false]
          split
          · exact fun h => hnext (cons.inj h).1
          · exact cons_ne_nil _ _
    next hout => simp [hout]

theorem Whole.add_eight_le {len ngrec grec : Nat} (h : Whole skb len ngrec grec) :
    ∀ p ∈ loopRecords skb ngrec grec, p + 8 ≤ len := by
  induction ngrec generalizing grec with
  | zero => exact fun _ hp => absurd hp not_mem_nil
  | succ ngrec ih =>
    obtain ⟨hin, hrest⟩ := h
    have hhead : grec + 8 ≤ len := by
      unfold recordLength at hin
      omega
    intro p hp
    rcases mem_cons.mp hp with rfl | hp
    · exact hhead
    · rcases hrest with rfl | ⟨haux, hwhole⟩
      · exact absurd hp not_mem_nil
      · rw [recordLength_of_no_aux haux, ← Nat.add_assoc] at hwhole
        exact ih hwhole p hp

private theorem reportRight_iff (len : Nat) :
    ReportRight skb len ↔ 10 ≤ len ∧ ipHeadLen skb + 8 ≤ len ∧
      Whole skb len (ngrecOf skb) (ipHeadLen skb + 8) := by
  constructor
  · rintro ⟨hinside, hcomplete⟩
    have h9 := hinside 9 (by simp [reportReads])
    have h7 := hinside (ipHeadLen skb + 7) (by simp [reportReads])
    exact ⟨by omega, by omega, (loopRecords_complete_iff len _ _).mp hcomplete⟩
  · rintro ⟨hfixed, hreport, hwhole⟩
    refine ⟨fun i hi => ?_, (loopRecords_complete_iff len _ _).mpr hwhole⟩
    simp only [reportReads, mem_append, mem_cons, not_mem_nil, or_false, mem_flatMap,
      mem_range'_1] at hi
    rcases hi with hi | ⟨grec, hgrec, hi⟩
    · omega
    · have := hwhole.add_eight_le grec hgrec
      omega

variable {skb' : Frame}

private theorem loopRecords_congr {ngrec grec : Nat}
    (h : ∀ p ∈ loopRecords skb ngrec grec, ∀ i, 2 ≤ i → i < 8 →
      skb'.data (p + i) = skb.data (p + i)) :
    loopRecords skb' ngrec grec = loopRecords skb ngrec grec := by
  induction ngrec generalizing grec with
  | zero => rfl
  | succ ngrec ih =>
    have hnsrcs : nsrcsAt skb' grec = nsrcsAt skb grec := by
      have hhere := h grec mem_cons_self
      rw [nsrcsAt, hhere 2 (by omega) (by omega), hhere 3 (by omega) (by omega), nsrcsAt]
    rw [loopRecords, hnsrcs, ih (fun p hp => h p (mem_cons_of_mem _ hp)), loopRecords]

private theorem applyRecord_congr (env : Env) (devPort : Nat) {grec : Nat} (entries : List Entry)
    (hsource : skb'.hSource = skb.hSource) (htype : skb'.data grec = skb.data grec)
    (h : ∀ i, 2 ≤ i → i < 8 → skb'.data (grec + i) = skb.data (grec + i)) :
    applyRecord env devPort skb' grec entries = applyRecord env devPort skb grec entries := by
  have hnsrcs : nsrcsAt skb' grec = nsrcsAt skb grec := by
    rw [nsrcsAt, h 2 (by omega) (by omega), h 3 (by omega) (by omega), nsrcsAt]
  simp only [applyRecord, hsource, htype, hnsrcs, h 5 (by omega) (by omega),
    h 6 (by omega) (by omega), h 7 (by omega) (by omega)]

private theorem run_applyRecord_congr (env : Env) (devPort : Nat) (records : List Nat)
    (entries : List Entry) (hsource : skb'.hSource = skb.hSource)
    (h : ∀ p ∈ records, skb'.data p = skb.data p ∧
      ∀ i, 2 ≤ i → i < 8 → skb'.data (p + i) = skb.data (p + i)) :
    run (applyRecord env devPort skb') records entries =
      run (applyRecord env devPort skb) records entries := by
  induction records generalizing entries with
  | nil => rfl
  | cons p rest ih =>
    have hp := h p mem_cons_self
    rw [run_cons, applyRecord_congr env devPort entries hsource hp.1 hp.2,
      ih _ (fun q hq => h q (mem_cons_of_mem _ hq)), run_cons]

end

/-- A report makes the changes of the records where the loop stands, which depend on no byte but
those in `reportReads`. These lie in the packet, and the records are the complete ones of the
packet, exactly if all the declared records are complete and only the last has auxiliary data. -/
theorem report_records_applied (skb : Frame) (len : Nat) (htype : skb.data (ipHeadLen skb) = 0x22) :
    (ReportRight skb len ↔ 10 ≤ len ∧ ipHeadLen skb + 8 ≤ len ∧
      Whole skb len (ngrecOf skb) (ipHeadLen skb + 8)) ∧
    ∀ skb' : Frame, skb'.hSource = skb.hSource →
      (∀ i ∈ reportReads skb, skb'.data i = skb.data i) →
      ∀ env br forward devPort entries dest,
        (snoopIgmp env br skb' forward devPort entries dest).entries =
          run (applyRecord env devPort skb)
            (loopRecords skb (ngrecOf skb) (ipHeadLen skb + 8)) entries := by
  refine ⟨reportRight_iff len, fun skb' hsource hreads env br forward devPort entries dest => ?_⟩
  have hfixed (i : Nat) (hi : i ∈ [0, 9, ipHeadLen skb, ipHeadLen skb + 6, ipHeadLen skb + 7]) :
      skb'.data i = skb.data i := hreads i (mem_append_left _ hi)
  have hhead : ipHeadLen skb' = ipHeadLen skb := by
    rw [ipHeadLen, hfixed 0 (by simp), ipHeadLen]
  have hngrec : ngrecOf skb' = ngrecOf skb := by
    rw [ngrecOf, hhead, hfixed _ (by simp), hfixed _ (by simp), ngrecOf]
  have hrecord (p : Nat) (hp : p ∈ loopRecords skb (ngrecOf skb) (ipHeadLen skb + 8)) :
      skb'.data p = skb.data p ∧ ∀ i, 2 ≤ i → i < 8 → skb'.data (p + i) = skb.data (p + i) := by
    have hmem (i : Nat) (hi : i = p ∨ p + 2 ≤ i ∧ i < p + 8) : skb'.data i = skb.data i := by
      refine hreads i (mem_append_right _ (mem_flatMap.mpr ⟨p, hp, ?_⟩))
      rw [mem_cons, mem_range'_1]
      omega
    exact ⟨hmem p (.inl rfl), fun i h2 h8 => hmem _ (.inr (by omega))⟩
  have hreport : (snoopIgmp env br skb' forward devPort entries dest).entries =
      applyGrecs env devPort skb' (ngrecOf skb') (ipHeadLen skb' + 8) entries := by
    have hbyte : skb'.data ((skb'.data 0).toNat % 16 * 4) = 0x22 := by
      rw [← ipHeadLen, hhead, hfixed _ (by simp), htype]
    simp [snoopIgmp, hbyte, ngrecOf, ipHeadLen]
  rw [hreport, applyGrecs_records, hngrec, hhead, loopRecords_congr (fun p hp => (hrecord p hp).2),
    run_applyRecord_congr env devPort _ entries hsource hrecord]

/-- A report of the host 7 with two records: a join for the first group with two sources, and a
leave for the second with one word of auxiliary data. -/
def twoRecords : Frame where
  dev := ⟨2, []⟩
  brPort := some 2
  protocol := ethPIp
  hDest := 0
  hSource := 7
  data i :=
    (([0x45, 0, 0, 56, 0, 0, 0, 0, 1, 2] ++ replicate 10 0 ++
      [0x22, 0, 0, 0, 0, 0, 0, 2] ++
      [3, 0, 0, 2, 239, 1, 1, 1, 10, 0, 0, 1, 10, 0, 0, 2] ++
      [6, 1, 0, 0, 239, 1, 1, 2, 0xAA, 0xBB, 0xCC, 0xDD] : List UInt8)).getD i 0

theorem two_records_applied :
    ReportRight twoRecords 56 ∧
    ∀ env br forward devPort entries dest,
      (snoopIgmp env br twoRecords forward devPort entries dest).entries =
        brIgmpSnoopingDel devPort (groupMac 1 1 2) 7
          (brIgmpSnoopingAdd env devPort (groupMac 1 1 1) 7 entries) := by
  have hwhole := report_records_applied twoRecords 56 (by decide)
  refine ⟨hwhole.1.mpr ⟨by decide, by decide, by decide, .inr ⟨by decide, by decide, .inl rfl⟩⟩,
    fun env br forward devPort entries dest => ?_⟩
  have hloop :
      loopRecords twoRecords (ngrecOf twoRecords) (ipHeadLen twoRecords + 8) = [28, 44] := by
    decide
  rw [hwhole.2 twoRecords rfl (fun _ _ => rfl), hloop]
  rfl

/-- The packet ends before the last record, which is read behind it and applied. -/
theorem record_behind_packet_applied :
    ¬ReportRight twoRecords 44 ∧
    ∃ entries, (snoopIgmp ⟨0, true⟩ ⟨fun _ => ⟨⟨2, []⟩, .forwarding⟩, []⟩ twoRecords true 2
        entries 0).entries ≠
      run (applyRecord ⟨0, true⟩ 2 twoRecords) (completeRecords twoRecords 44 2 28) entries := by
  refine ⟨fun h => absurd (h.inside 44 (by decide)) (by decide),
    [⟨some 2, groupMac 1 1 2, 7, 0⟩], by decide⟩

end EchoLife.Bridge
