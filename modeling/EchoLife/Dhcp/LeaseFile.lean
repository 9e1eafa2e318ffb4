import EchoLife.Base.Records
import EchoLife.Base.Word
import EchoLife.Dhcp.Pools

/-!
The lease files of the DHCP server. The entries in use are written as records of
88 bytes, field by field; at the next start the file is read in pieces of the
size of the whole structure, which has another 64 bytes for a vendor class.
-/

namespace EchoLife.Dhcp

open Function List Records Word

/-- `struct dhcpOfferedAddr` with its host name. The vendor class at its end is
never used. -/
structure LeaseEntry extends Lease where
  hostname : Nat → UInt8
  yiaddr_lt : yiaddr < 2 ^ 32
  expires_lt : expires < 2 ^ 32

def LeaseEntry.blank : LeaseEntry where
  toLease := Lease.blank
  hostname := fun _ => 0
  yiaddr_lt := by decide
  expires_lt := by decide

def LeaseEntry.name (l : LeaseEntry) : List UInt8 :=
  ((range 64).map l.hostname).takeWhile (· ≠ 0)

def fwrite (bytes : Nat → UInt8) (size : Nat) : List UInt8 :=
  (range size).map bytes

section
variable (remaining : Bool) (now : Nat)

def writtenTime (l : LeaseEntry) : Nat :=
  if remaining then
    if leaseExpired now l.toLease then 0 else l.expires - now
  else l.expires

def LeaseEntry.written (l : LeaseEntry) : Lease :=
  ⟨l.chaddr, l.yiaddr, writtenTime remaining now l⟩

def writeRecord (l : LeaseEntry) : List UInt8 :=
  fwrite (beNatBytes 16 l.chaddr.toNat) 16 ++ fwrite (be32Bytes l.yiaddr) 4 ++
    fwrite (be32Bytes (writtenTime remaining now l)) 4 ++ fwrite l.hostname 64

def writeLeaseFile (config : PoolConfig) (now : Nat) (leases : Nat → LeaseEntry) : List UInt8 :=
  (range config.maxLeases).flatMap (fun i =>
    if (leases i).yiaddr ≠ 0 then writeRecord config.remaining now (leases i)
    else [])

def recordSize : Nat := 88

def structSize : Nat := 152

def readRecord (piece : List UInt8) : LeaseEntry where
  chaddr := BitVec.ofNat 128 (beNat (fun i => piece.getD i 0) 0 16)
  yiaddr := be32 (fun i => piece.getD i 0) 16
  expires := be32 (fun i => piece.getD i 0) 20
  hostname := fun i => piece.getD (24 + i) 0
  yiaddr_lt := be32_lt _ _
  expires_lt := be32_lt _ _

def restoredExpiry (expires : Nat) : Nat :=
  if remaining then (expires + now) % 2 ^ 32 else expires

end

variable {now : Nat} {leases : Nat → LeaseEntry}

private theorem restoredExpiry_lt {remaining : Bool} {expires : Nat}
    (h : expires < 2 ^ 32) : restoredExpiry remaining now expires < 2 ^ 32 := by
  simp only [restoredExpiry]
  split
  · exact Nat.mod_lt _ (by decide)
  · exact h

def LeaseEntry.restore (remaining : Bool) (now : Nat) (entry lease : LeaseEntry) : LeaseEntry where
  chaddr := lease.chaddr
  yiaddr := lease.yiaddr
  expires := restoredExpiry remaining now lease.expires
  hostname := entry.hostname
  yiaddr_lt := lease.yiaddr_lt
  expires_lt := restoredExpiry_lt lease.expires_lt

section
variable (config : PoolConfig)

def PoolConfig.InPool (l : LeaseEntry) : Prop :=
  config.start ≤ l.yiaddr ∧ l.yiaddr ≤ config.stop

instance (config : PoolConfig) : DecidablePred config.InPool :=
  fun _ => inferInstanceAs (Decidable (_ ∧ _))

/-- The loop that enters what the pieces of a file hold, from entry `i` on. -/
def readLoop (config : PoolConfig) (now : Nat) :
    List (List UInt8) → Nat → (Nat → LeaseEntry) → Nat → LeaseEntry
  | [], _, leases => leases
  | piece :: rest, i, leases =>
    if i < config.maxLeases then
      let lease := readRecord piece
      if config.InPool lease then
        readLoop config now rest (i + 1) (update leases i
          ((leases i).restore config.remaining now lease))
      else readLoop config now rest i leases
    else leases

def readLeaseFile (now : Nat) (file : List UInt8)
    (leases : Nat → LeaseEntry) : Nat → LeaseEntry :=
  readLoop config now (pieces structSize file) 0 leases

structure LeaseStore where
  config : PoolConfig
  config2 : PoolConfig
  leases : Nat → LeaseEntry
  leases2 : Nat → LeaseEntry

def writeLeases (now : Nat) (s : LeaseStore) : List UInt8 :=
  writeLeaseFile s.config now s.leases

def writeLeases2 (now : Nat) (s : LeaseStore) : List UInt8 :=
  writeLeaseFile s.config2 now s.leases2

def readLeases (now : Nat) (file : List UInt8) (s : LeaseStore) : LeaseStore :=
  { s with leases := readLeaseFile s.config now file s.leases }

def readLeases2 (now : Nat) (file : List UInt8) (s : LeaseStore) : LeaseStore :=
  { s with leases2 := readLeaseFile s.config2 now file s.leases2 }

def LeaseStore.restart (s : LeaseStore) : LeaseStore :=
  { s with
    leases := fun _ => LeaseEntry.blank
    leases2 := fun _ => LeaseEntry.blank }

def usedEntries (leases : Nat → LeaseEntry) : List LeaseEntry :=
  ((range config.maxLeases).map leases).filter (fun l => l.yiaddr ≠ 0)

end

variable {config : PoolConfig} {l : LeaseEntry}

private theorem length_usedEntries_le (config : PoolConfig) (leases : Nat → LeaseEntry) :
    (usedEntries config leases).length ≤ config.maxLeases := by
  have hfilter := length_filter_le (fun l : LeaseEntry => l.yiaddr ≠ 0)
    ((range config.maxLeases).map leases)
  simpa [usedEntries] using hfilter

theorem writeLeaseFile_eq (config : PoolConfig) (now : Nat) (leases : Nat → LeaseEntry) :
    writeLeaseFile config now leases =
      (usedEntries config leases).flatMap (writeRecord config.remaining now) := by
  simp only [writeLeaseFile, usedEntries]
  induction range config.maxLeases with
  | nil => rfl
  | cons i rest ih =>
    rw [flatMap_cons, ih, map_cons]
    by_cases hused : (leases i).yiaddr = 0
    · simp [hused]
    · simp [hused]

theorem length_writeRecord (remaining : Bool) (now : Nat) (l : LeaseEntry) :
    (writeRecord remaining now l).length = recordSize := by
  simp [writeRecord, fwrite, recordSize]

/-- What step `c` over the records of `used` meets: byte `p` of the file is byte `p % 88` of
record `p / 88`. -/
def readStep (config : PoolConfig) (now : Nat) (used : List LeaseEntry) (c : Nat) : LeaseEntry :=
  readRecord ((range structSize).map (fun d =>
    itemAt recordSize (writeRecord config.remaining now) 0 used (structSize * c + d)))

def accepted (config : PoolConfig) (ps : List (List UInt8)) : List LeaseEntry :=
  (ps.map readRecord).filter (fun l => config.InPool l)

private theorem length_accepted_le (config : PoolConfig) (ps : List (List UInt8)) :
    (accepted config ps).length ≤ ps.length := by
  rw [← length_map readRecord]
  exact length_filter_le _ _

/-- The steps over the records that look like leases of the pool. -/
def poolSteps (config : PoolConfig) (now : Nat) (used : List LeaseEntry) : List LeaseEntry :=
  ((range (recordSize * used.length / structSize)).map (readStep config now used)).filter
    (fun l => config.InPool l ∧ l.yiaddr ≠ 0)

/-- What is read of the file, in terms of the records that were written. -/
theorem map_readRecord_pieces (config : PoolConfig) (now : Nat) (leases : Nat → LeaseEntry) :
    (pieces structSize (writeLeaseFile config now leases)).map readRecord =
      (range (recordSize * (usedEntries config leases).length / structSize)).map
        (readStep config now (usedEntries config leases)) := by
  have hlength := length_writeRecord config.remaining now
  rw [pieces, writeLeaseFile_eq, length_flatMap hlength, map_map]
  refine map_congr_left fun c hc => ?_
  have hend : structSize * c + structSize ≤
      recordSize * (usedEntries config leases).length := by
    have hlt := mem_range.mp hc
    rw [Nat.lt_div_iff_mul_lt (by decide)] at hlt
    simp only [structSize, recordSize] at hlt ⊢
    omega
  rw [comp_apply, take_drop_flatMap hlength (by decide) 0 _ hend]
  rfl

private theorem readLoop_eq (config : PoolConfig) (now : Nat) (ps : List (List UInt8))
    (i : Nat) (leases : Nat → LeaseEntry)
    (hroom : i + (accepted config ps).length ≤ config.maxLeases) (j : Nat) :
    readLoop config now ps i leases j =
      if i ≤ j then ((accepted config ps)[j - i]?).elim (leases j)
        ((leases j).restore config.remaining now)
      else leases j := by
  induction ps generalizing i leases with
  | nil =>
    simp only [readLoop, accepted, map_nil, filter_nil, getElem?_nil, Option.elim_none, ite_self]
  | cons piece rest ih =>
    simp only [readLoop]
    by_cases hpool : config.InPool (readRecord piece)
    · have hcons : accepted config (piece :: rest) = readRecord piece :: accepted config rest := by
        simp [accepted, hpool]
      rw [hcons, length_cons] at hroom
      rw [hcons, if_pos (by omega), if_pos hpool, ih (i + 1) _ (by omega)]
      rcases lt_trichotomy j i with hlt | rfl | hgt
      · rw [if_neg (by omega), if_neg (by omega), update_of_ne (by omega)]
      · rw [if_neg (by omega), if_pos (Nat.le_refl j), update_self, Nat.sub_self]
        rfl
      · have hsub : j - i = j - (i + 1) + 1 := by omega
        rw [if_pos (by omega), if_pos (by omega), hsub, update_of_ne (by omega), getElem?_cons_succ]
    · have hskip : accepted config (piece :: rest) = accepted config rest := by
        simp [accepted, hpool]
      rw [hskip] at hroom
      rw [hskip, if_neg hpool]
      by_cases hmore : i < config.maxLeases
      · rw [if_pos hmore, ih i leases hroom]
      have hnone : accepted config rest = [] :=
        eq_nil_of_length_eq_zero (by omega)
      rw [if_neg hmore, hnone]
      simp

section
variable (config : PoolConfig) (now later : Nat) (leases : Nat → LeaseEntry)

def restoredTable : Nat → LeaseEntry :=
  readLeaseFile config later (writeLeaseFile config now leases) (fun _ => LeaseEntry.blank)

/-- The reader takes fewer pieces than there are entries. -/
theorem length_accepted_le_maxLeases :
    (accepted config (pieces structSize (writeLeaseFile config now leases))).length ≤
      config.maxLeases := by
  have haccepted := length_accepted_le config (pieces structSize (writeLeaseFile config now leases))
  have hpieces : (pieces structSize (writeLeaseFile config now leases)).length =
      recordSize * (usedEntries config leases).length / structSize := by
    rw [length_pieces, writeLeaseFile_eq, length_flatMap (length_writeRecord config.remaining now)]
  have hused := length_usedEntries_le config leases
  rw [hpieces] at haccepted
  simp only [recordSize, structSize] at haccepted ⊢
  omega

private theorem restoredTable_eq (j : Nat) :
    restoredTable config now later leases j =
      ((accepted config (pieces structSize
        (writeLeaseFile config now leases)))[j]?).elim LeaseEntry.blank
        (LeaseEntry.blank.restore config.remaining later) := by
  have hroom := length_accepted_le_maxLeases config now leases
  simp only [restoredTable, readLeaseFile]
  rw [readLoop_eq config later _ 0 _ (by omega) j, if_pos (Nat.zero_le j), Nat.sub_zero]

def Survives (l : LeaseEntry) : Prop :=
  l.yiaddr ≠ 0 ∧ config.InPool l ∧ leaseExpired now l.toLease = false

instance : DecidablePred (Survives config now) :=
  fun _ => inferInstanceAs (Decidable (_ ∧ _ ∧ _))

/-- `r` is `l` after a restart: it ends as long after reading as `l` ended after writing, or at
the same time where times are absolute. -/
def SameLease (l r : LeaseEntry) : Prop :=
  r.chaddr = l.chaddr ∧ r.yiaddr = l.yiaddr ∧ r.name = l.name ∧
    r.expires = if config.remaining then (l.expires - now + later) % 2 ^ 32
      else l.expires

/-- The entries afterwards are the leases that are to survive, each of them once, in some order. -/
def RoundTrip (after : Nat → LeaseEntry) : Prop :=
  ∃ order, order.Perm ((usedEntries config leases).filter (Survives config now)) ∧
    Forall₂ (SameLease config now later) order (usedEntries config after)

/-- The steps of 152 bytes that fall, among records of 88 bytes, on something that looks like a
lease of the pool fall on the leases that are to survive, on each of them once; and these leases
have no host name. -/
structure StepsFit (used : List LeaseEntry) : Prop where
  unnamed : ∀ l ∈ used, Survives config now l → l.name = []
  steps : ((poolSteps config now used).map (·.toLease)).Perm
    ((used.filter (Survives config now)).map (·.written config.remaining now))

variable {config now later leases}

/-- An entry made from a record is the lease exactly if the record is its own and it has no host
name. -/
theorem sameLease_restore_iff {record : LeaseEntry} (hl : Survives config now l) :
    SameLease config now later l (LeaseEntry.blank.restore config.remaining later record) ↔
      l.name = [] ∧ record.toLease = l.written config.remaining now := by
  have hname : (LeaseEntry.blank.restore config.remaining later record).name = [] :=
    rfl
  have hexpired := hl.2.2
  have hexpires := l.expires_lt
  have hrecord := record.expires_lt
  have htime : (LeaseEntry.blank.restore config.remaining later record).expires =
      (if config.remaining then (l.expires - now + later) % 2 ^ 32 else l.expires) ↔
      record.expires = writtenTime config.remaining now l := by
    simp only [LeaseEntry.restore, restoredExpiry, writtenTime, hexpired]
    cases config.remaining with
    | true =>
      simp only [if_true, Bool.false_eq_true, if_false]
      omega
    | false => rfl
  simp only [SameLease, hname, htime, LeaseEntry.written]
  constructor
  · rintro ⟨hchaddr, hyiaddr, hempty, hexpires⟩
    exact ⟨hempty.symm, Lease.ext hchaddr hyiaddr hexpires⟩
  · rintro ⟨hempty, hrecord⟩
    obtain ⟨hchaddr, hyiaddr, hexpires⟩ := Lease.ext_iff.mp hrecord
    exact ⟨hchaddr, hyiaddr, hempty.symm, hexpires⟩

private theorem usedEntries_restoredTable :
    usedEntries config (restoredTable config now later leases) =
      (poolSteps config now (usedEntries config leases)).map
        (LeaseEntry.blank.restore config.remaining later) := by
  have hroom := length_accepted_le_maxLeases config now leases
  have hblank (n : Nat) : (replicate n LeaseEntry.blank).filter (fun l => l.yiaddr ≠ 0) = [] :=
    filter_replicate_of_neg (by decide)
  rw [usedEntries, funext (restoredTable_eq config now later leases),
    map_range_getElem?_elim hroom, filter_append, hblank, append_nil, filter_map, accepted,
    map_readRecord_pieces, poolSteps, filter_filter]
  congr 1
  refine filter_congr fun l _ => ?_
  rw [Bool.decide_and, Bool.and_comm]
  rfl

theorem roundTrip_iff :
    RoundTrip config now later leases (restoredTable config now later leases) ↔
      StepsFit config now (usedEntries config leases) := by
  have hmatch {order : List LeaseEntry} (steps : List LeaseEntry)
      (horder : ∀ l ∈ order, Survives config now l) :
      Forall₂ (SameLease config now later) order
          (steps.map (LeaseEntry.blank.restore config.remaining later)) ↔
        (∀ l ∈ order, l.name = []) ∧
          steps.map (·.toLease) = order.map (·.written config.remaining now) := by
    induction order generalizing steps with
    | nil => cases steps with
      | nil => simp
      | cons r rest => simp
    | cons l order ih =>
      cases steps with
      | nil => simp
      | cons r rest =>
        obtain ⟨hl, hrest⟩ := forall_mem_cons.mp horder
        rw [map_cons, forall₂_cons, sameLease_restore_iff hl, ih rest hrest]
        simp only [forall_mem_cons, map_cons, cons.injEq]
        tauto
  have hsurvives {order : List LeaseEntry}
      (h : order.Perm ((usedEntries config leases).filter (Survives config now))) (l : LeaseEntry)
      (hl : l ∈ order) : l ∈ usedEntries config leases ∧ Survives config now l := by
    simpa using mem_filter.mp (h.subset hl)
  rw [RoundTrip, usedEntries_restoredTable]
  constructor
  · rintro ⟨order, hperm, hsame⟩
    rw [hmatch _ (fun l hl => (hsurvives hperm l hl).2)] at hsame
    refine ⟨fun l hl hsurv => hsame.1 l (hperm.symm.subset (by simp [hl, hsurv])), ?_⟩
    rw [hsame.2]
    exact hperm.map _
  · rintro ⟨hunnamed, hsteps⟩
    obtain ⟨order, heq, hperm⟩ := (congrFun₂ (eq_map_comp_perm _) _ _).mpr hsteps
    refine ⟨order, hperm, (hmatch _ (fun l hl => (hsurvives hperm l hl).2)).mpr ⟨?_, heq⟩⟩
    exact fun l hl => hunnamed l (hsurvives hperm l hl).1 (hsurvives hperm l hl).2

end

/-- For both pools, writing the leases and reading them back after a restart gives the leases that
are to survive, exactly if the steps fit. -/
theorem lease_files_round_trip_iff (s : LeaseStore) (now later : Nat) :
    (RoundTrip s.config now later s.leases (readLeases later (writeLeases now s) s.restart).leases ↔
      StepsFit s.config now (usedEntries s.config s.leases)) ∧
    (RoundTrip s.config2 now later s.leases2
        (readLeases2 later (writeLeases2 now s) s.restart).leases2 ↔
      StepsFit s.config2 now (usedEntries s.config2 s.leases2)) :=
  ⟨roundTrip_iff, roundTrip_iff⟩

private theorem stepsFit_single : StepsFit config now [l] ↔ ¬Survives config now l := by
  -- The file is shorter than a piece.
  have hnone : poolSteps config now [l] = [] := by
    simp [poolSteps, recordSize, structSize]
  constructor
  · rintro ⟨-, hsteps⟩ hl
    rw [hnone, filter_cons_of_pos (by simpa using hl)] at hsteps
    exact absurd hsteps.length_eq (by simp)
  · intro hl
    refine ⟨fun other hmem hother => ?_, ?_⟩
    · exact absurd (mem_singleton.mp hmem ▸ hother) hl
    · rw [hnone, filter_cons_of_neg (by simpa using hl)]
      exact .refl _

def oneLease : LeaseStore where
  config := homePool
  config2 := vendorPool
  leases := fun i => if i = 0 then ⟨⟨1, 0xC0A80102, 86400⟩, fun _ => 0, by decide,
    by decide⟩ else LeaseEntry.blank
  leases2 := fun _ => LeaseEntry.blank

/-- The only lease of the table is written, and nothing of it is read back. -/
theorem only_lease_lost :
    Survives oneLease.config 60 (oneLease.leases 0) ∧
    (writeLeases 60 oneLease).length = 88 ∧
    (∀ j, ((readLeases 90 (writeLeases 60 oneLease) oneLease.restart).leases
      j).toLease = Lease.blank) ∧
    ¬RoundTrip oneLease.config 60 90 oneLease.leases
      (readLeases 90 (writeLeases 60 oneLease) oneLease.restart).leases := by
  have hused : usedEntries oneLease.config oneLease.leases = [oneLease.leases 0] := rfl
  have hlength : (writeLeases 60 oneLease).length = 88 := by
    rfl
  have hsurvives : Survives oneLease.config 60 (oneLease.leases 0) := by
    refine ⟨by decide, by decide, by decide⟩
  refine ⟨hsurvives, hlength, ?_, ?_⟩
  · intro j
    rfl
  · intro h
    have hfit := roundTrip_iff.mp h
    rw [hused, stepsFit_single] at hfit
    exact hfit hsurvives

end EchoLife.Dhcp
