import EchoLife.Base.Decimal
import EchoLife.Base.Word
import EchoLife.Bridge.Snooping

/-!
The list of IP and MAC addresses that the bridge learns from IGMP packets
(`br_input.c`), with the counter that is kept beside it and the listing in
`/proc/net/mac_mcast`, which relies on the counter.
-/

namespace EchoLife.Bridge

open Buffer Decimal List Run Word

/-- `ip_mac_entry`; the address is the text in its sixteen bytes. -/
structure IpMacEntry where
  ip : List UInt8
  mac : Mac
  time : Nat
  deriving DecidableEq

/-- `mim_list`, newest entry first. -/
structure McIpMac where
  entries : List IpMacEntry
  count : Int
  timerStart : Bool
  deriving DecidableEq

def McIpMac.init : McIpMac where
  entries := []
  count := 0
  timerStart := false

def ipMacTimeoutSeconds : Nat := 135

/-- `jiffies + IP_MAC_TIMEOUT*HZ`, an `unsigned long`. -/
def Env.ipMacExpiry (env : Env) : Nat :=
  SoftState.word (env.jiffies + ipMacTimeoutSeconds * hz)

def enomem : Int := 12

/-- `ip_mac_timeout`: takes the overdue entries out and counts them off. -/
def ipMacTimeout (env : Env) (s : McIpMac) : McIpMac :=
  let kept := s.entries.filter fun e =>
    !SoftState.overdue (ipMacTimeoutSeconds * hz) (SoftState.word env.jiffies) e.time
  { s with entries := kept, count := s32 (s.count - (s.entries.length - kept.length : Nat)) }

/-- The list after the loop of `ip_mac_add`, how many entries it took out, and whether it found
the pair. -/
structure IpMacWalk where
  kept : List IpMacEntry
  removed : Nat
  found : Bool
  deriving DecidableEq

def ipMacWalk (mac : Mac) (ip : List UInt8) (expiry : Nat) : List IpMacEntry → IpMacWalk
  | [] => ⟨[], 0, false⟩
  | e :: rest =>
    let walk := ipMacWalk mac ip expiry rest
    if e.mac = mac then
      if e.ip = ip then ⟨{ e with time := expiry } :: rest, 0, true⟩
      else { walk with removed := walk.removed + 1 }
    else { walk with kept := e :: walk.kept }

def ipMacAdd (env : Env) (hostMac : Mac) (hostIp : List UInt8) (s : McIpMac) : McIpMac × Int :=
  let walk := ipMacWalk hostMac hostIp env.ipMacExpiry s.entries
  let walked := { s with entries := walk.kept, count := s32 (s.count - walk.removed) }
  if walk.found then (walked, 0)
  else if !env.kmallocOk then (walked, -enomem)
  else
    let added := { walked with entries := ⟨hostIp, hostMac, env.ipMacExpiry⟩ :: walk.kept }
    -- The counter goes up in the branch that starts the timer.
    if !s.timerStart then
      ({ added with timerStart := true, count := s32 (walked.count + 1) }, 0)
    else (added, 0)

/-- `sprintf(ipaddr, "%u.%u.%u.%u", ...)` into sixteen bytes of zeros. -/
def ipText (data : Nat → UInt8) : List UInt8 :=
  let text := decimal (data 12).toNat ++ 0x2E :: decimal (data 13).toNat ++
    0x2E :: decimal (data 14).toNat ++ 0x2E :: decimal (data 15).toNat
  slice (sprintf (fun _ => 0) 0 text) 0 16

def ipMatchMac (env : Env) (skb : Frame) (s : McIpMac) : McIpMac :=
  if skb.data 9 = ipprotoIgmp ∧ skb.protocol = ethPIp then
    (ipMacAdd env skb.hSource (ipText skb.data) s).1
  else s

inductive IpMacEvent where
  | learn (env : Env) (skb : Frame)
  | timeout (env : Env)

def IpMacEvent.step : IpMacEvent → McIpMac → McIpMac
  | .learn env skb, s => ipMatchMac env skb s
  | .timeout env, s => if s.timerStart then ipMacTimeout env s else s

/-! ### The walk -/

section
variable (mac : Mac) (ip : List UInt8) (expiry : Nat)

section

variable (entries : List IpMacEntry)

theorem ipMacWalk_length :
    (ipMacWalk mac ip expiry entries).kept.length + (ipMacWalk mac ip expiry entries).removed =
      entries.length := by
  induction entries with
  | nil => rfl
  | cons e rest ih =>
    unfold ipMacWalk
    split
    · split
      · rfl
      · simp only [length_cons]
        omega
    · simp only [length_cons]
      omega

private theorem ipMacWalk_found_iff :
    (ipMacWalk mac ip expiry entries).found = true ↔ ∃ e ∈ entries, e.mac = mac ∧ e.ip = ip := by
  induction entries with
  | nil => simp [ipMacWalk]
  | cons e rest ih =>
    unfold ipMacWalk
    split
    next hmac =>
      split
      next hip => exact iff_of_true rfl ⟨e, mem_cons_self, hmac, hip⟩
      next hip => simp only [ih, mem_cons, exists_eq_or_imp, hip, and_false, false_or]
    next hmac => simp only [ih, mem_cons, exists_eq_or_imp, hmac, false_and, false_or]

private theorem ipMacWalk_macs :
    List.Sublist ((ipMacWalk mac ip expiry entries).kept.map IpMacEntry.mac)
      (entries.map IpMacEntry.mac) := by
  induction entries with
  | nil => exact List.Sublist.refl []
  | cons e rest ih =>
    unfold ipMacWalk
    split
    · split
      · exact List.Sublist.refl _
      · exact ih.cons e.mac
    · exact ih.cons_cons e.mac

end

private theorem ipMacWalk_not_found {entries : List IpMacEntry}
    (h : (ipMacWalk mac ip expiry entries).found = false) :
    mac ∉ (ipMacWalk mac ip expiry entries).kept.map IpMacEntry.mac := by
  induction entries with
  | nil => exact not_mem_nil
  | cons e rest ih =>
    unfold ipMacWalk at h ⊢
    split at h
    next hmac =>
      split at h
      · cases h
      next hip =>
        simp only [if_pos hmac, if_neg hip]
        exact ih h
    next hmac =>
      simp only [if_neg hmac, map_cons, mem_cons, not_or]
      exact ⟨Ne.symm hmac, ih h⟩

end

/-! ### The counter -/

/-- The counter lags behind the list by `missed`. -/
def McIpMac.Lags (s : McIpMac) (missed : Nat) : Prop :=
  s.count = s32 (s.entries.length - missed)

variable {s : McIpMac} {missed : Nat}

private theorem lags_walk (h : s.Lags missed) (mac : Mac) (ip : List UInt8) (expiry : Nat) :
    s32 (s.count - (ipMacWalk mac ip expiry s.entries).removed) =
      s32 ((ipMacWalk mac ip expiry s.entries).kept.length - missed) := by
  have hlength := ipMacWalk_length mac ip expiry s.entries
  rw [h, Int.sub_eq_add_neg, s32_s32_add, ← hlength]
  congr 1
  push_cast
  ring

theorem McIpMac.Lags.timeout (h : s.Lags missed)
    (env : Env) : (ipMacTimeout env s).Lags missed := by
  have hle : (ipMacTimeout env s).entries.length ≤ s.entries.length :=
    length_filter_le _ _
  have hcount : (ipMacTimeout env s).count =
      s32 (s.count - (s.entries.length - (ipMacTimeout env s).entries.length : Nat)) := rfl
  unfold McIpMac.Lags at h ⊢
  rw [hcount, h, Int.sub_eq_add_neg, s32_s32_add]
  congr 1
  omega

variable (env : Env) (hostMac : Mac) (hostIp : List UInt8)

/-- `ip_mac_add` finds the pair, has no memory for an entry, or starts the timer. -/
def Counted (s : McIpMac) : Prop :=
  (∃ e ∈ s.entries, e.mac = hostMac ∧ e.ip = hostIp) ∨ env.kmallocOk = false ∨ s.timerStart = false

instance (env : Env) (hostMac : Mac) (hostIp : List UInt8) (s : McIpMac) :
    Decidable (Counted env hostMac hostIp s) :=
  inferInstanceAs (Decidable (_ ∨ _ ∨ _))

/-- Nothing is added, or the new entry is in front of the kept ones; then the counter follows only
where the timer is started. -/
theorem ipMacAdd_cases (s : McIpMac)
    {walk : IpMacWalk} (hwalk : ipMacWalk hostMac hostIp env.ipMacExpiry s.entries = walk) :
      (Counted env hostMac hostIp s ∧ (ipMacAdd env hostMac hostIp s).1 =
        ⟨walk.kept, s32 (s.count - walk.removed), s.timerStart⟩) ∨
      (walk.found = false ∧ s.timerStart = false ∧ Counted env hostMac hostIp s ∧
        (ipMacAdd env hostMac hostIp s).1 = ⟨⟨hostIp, hostMac, env.ipMacExpiry⟩ :: walk.kept,
          s32 (s32 (s.count - walk.removed) + 1), true⟩) ∨
      (walk.found = false ∧ s.timerStart = true ∧ ¬ Counted env hostMac hostIp s ∧
        (ipMacAdd env hostMac hostIp s).1 = ⟨⟨hostIp, hostMac, env.ipMacExpiry⟩ :: walk.kept,
          s32 (s.count - walk.removed), true⟩) := by
  have hfound := ipMacWalk_found_iff hostMac hostIp env.ipMacExpiry s.entries
  simp only [ipMacAdd, Counted, ← hfound, hwalk]
  obtain ⟨kept, removed, found⟩ := walk
  cases found with
  | true => exact .inl ⟨.inl rfl, rfl⟩
  | false =>
    cases hmemory : env.kmallocOk with
    | false => exact .inl ⟨.inr (.inl rfl), rfl⟩
    | true =>
      obtain ⟨entries, count, timerStart⟩ := s
      cases timerStart with
      | false => exact .inr (.inl ⟨rfl, rfl, .inr (.inr rfl), rfl⟩)
      | true => exact .inr (.inr ⟨rfl, rfl, by simp, rfl⟩)

theorem McIpMac.Lags.add (h : s.Lags missed) (env : Env) (hostMac : Mac) (hostIp : List UInt8) :
    (ipMacAdd env hostMac hostIp s).1.Lags
      ((if Counted env hostMac hostIp s then 0 else 1) + missed) := by
  rcases ipMacAdd_cases env hostMac hostIp s rfl with
    ⟨hcounted, hadd⟩ | ⟨_, _, hcounted, hadd⟩ | ⟨_, _, hcounted, hadd⟩
  · rw [hadd, if_pos hcounted, zero_add]
    exact lags_walk h hostMac hostIp env.ipMacExpiry
  · rw [hadd, if_pos hcounted]
    unfold McIpMac.Lags
    rw [lags_walk h, s32_s32_add, length_cons]
    dsimp only
    congr 1
    push_cast
    ring
  · rw [hadd, if_neg hcounted]
    unfold McIpMac.Lags
    rw [lags_walk h, length_cons]
    dsimp only
    congr 1
    push_cast
    ring

def IpMacEvent.Counts : IpMacEvent → McIpMac → Prop
  | .learn env skb, s => skb.data 9 = ipprotoIgmp → skb.protocol = ethPIp →
      Counted env skb.hSource (ipText skb.data) s
  | .timeout _, _ => True

instance (event : IpMacEvent) (s : McIpMac) : Decidable (event.Counts s) :=
  match event with
  | .learn _ _ => inferInstanceAs (Decidable (_ → _ → _))
  | .timeout _ => inferInstanceAs (Decidable True)

theorem McIpMac.Lags.step (h : s.Lags missed) (event : IpMacEvent) :
    (event.step s).Lags ((if event.Counts s then 0 else 1) + missed) := by
  cases event with
  | learn env skb =>
    simp only [IpMacEvent.step, ipMatchMac]
    rcases Decidable.em (skb.data 9 = ipprotoIgmp ∧ skb.protocol = ethPIp) with higmp | hother
    · have hcounts : (IpMacEvent.learn env skb).Counts s ↔
          Counted env skb.hSource (ipText skb.data) s :=
        ⟨fun h => h higmp.1 higmp.2, fun h _ _ => h⟩
      rw [if_pos higmp, if_congr hcounts rfl rfl]
      exact h.add env skb.hSource (ipText skb.data)
    · have hcounts : (IpMacEvent.learn env skb).Counts s :=
        fun hproto hip => absurd ⟨hproto, hip⟩ hother
      rw [if_neg hother, if_pos hcounts, zero_add]
      exact h
  | timeout env =>
    have hcounts : (IpMacEvent.timeout env).Counts s := trivial
    rw [if_pos hcounts, zero_add]
    simp only [IpMacEvent.step]
    split
    · exact h.timeout env
    · exact h

theorem McIpMac.Lags.run (h : s.Lags missed) (events : List IpMacEvent) :
    (run IpMacEvent.step events s).Lags
      (violations IpMacEvent.step IpMacEvent.Counts events s + missed) := by
  induction events generalizing s missed with
  | nil =>
    rw [violations, zero_add]
    exact h
  | cons event rest ih =>
    have hrest := ih (h.step event)
    rw [violations, add_assoc, add_left_comm]
    exact hrest

private theorem run_lags (events : List IpMacEvent) :
    (run IpMacEvent.step events McIpMac.init).Lags
      (violations IpMacEvent.step IpMacEvent.Counts events McIpMac.init) := by
  have hstart : McIpMac.init.Lags 0 := by simp [McIpMac.Lags, McIpMac.init, s32]
  exact hstart.run events

/-! ### The list -/

def McIpMac.Distinct (s : McIpMac) : Prop :=
  (s.entries.map IpMacEntry.mac).Nodup

theorem McIpMac.Distinct.add (h : s.Distinct) (env : Env) (hostMac : Mac)
    (hostIp : List UInt8) : (ipMacAdd env hostMac hostIp s).1.Distinct := by
  have hsublist := ipMacWalk_macs hostMac hostIp env.ipMacExpiry s.entries
  have hkept := h.sublist hsublist
  rcases ipMacAdd_cases env hostMac hostIp s rfl with
    ⟨_, hadd⟩ | ⟨hfound, _, _, hadd⟩ | ⟨hfound, _, _, hadd⟩
  · rw [hadd]
    exact hkept
  · rw [hadd]
    exact nodup_cons.mpr ⟨ipMacWalk_not_found hostMac hostIp _ hfound, hkept⟩
  · rw [hadd]
    exact nodup_cons.mpr ⟨ipMacWalk_not_found hostMac hostIp _ hfound, hkept⟩

theorem McIpMac.Distinct.step (h : s.Distinct) (event : IpMacEvent) : (event.step s).Distinct := by
  cases event with
  | learn env skb =>
    simp only [IpMacEvent.step, ipMatchMac]
    split
    · exact h.add env skb.hSource (ipText skb.data)
    · exact h
  | timeout env =>
    simp only [IpMacEvent.step]
    split
    · exact h.sublist ((filter_sublist).map IpMacEntry.mac)
    · exact h

/-- With the counter in step the list never has a second entry: the first one starts
the timer. -/
structure McIpMac.Single (s : McIpMac) : Prop where
  short : s.entries.length ≤ 1
  fresh : s.timerStart = false → s.entries = []

theorem McIpMac.Single.add (h : s.Single) {env : Env} {hostMac : Mac} {hostIp : List UInt8}
    (hcounted : Counted env hostMac hostIp s) : (ipMacAdd env hostMac hostIp s).1.Single := by
  have hlength := ipMacWalk_length hostMac hostIp env.ipMacExpiry s.entries
  have hshort := h.short
  rcases ipMacAdd_cases env hostMac hostIp s rfl with
    ⟨_, hadd⟩ | ⟨_, hstart, _, hadd⟩ | ⟨_, _, hnot, _⟩
  · rw [hadd]
    refine ⟨?_, ?_⟩
    · simp only
      omega
    · intro hstart
      rw [h.fresh hstart]
      rfl
  · rw [hadd, h.fresh hstart]
    exact ⟨le_refl 1, fun hfalse => absurd hfalse (by simp)⟩
  · exact absurd hcounted hnot

theorem McIpMac.Single.step (h : s.Single) {event : IpMacEvent}
    (hcounts : event.Counts s) : (event.step s).Single := by
  cases event with
  | learn env skb =>
    simp only [IpMacEvent.step, ipMatchMac]
    split
    next higmp => exact h.add (hcounts higmp.1 higmp.2)
    · exact h
  | timeout env =>
    simp only [IpMacEvent.step]
    split
    next hstart =>
      refine ⟨le_trans (length_filter_le _ _) h.short, ?_⟩
      intro hstopped
      exact absurd (hstart.symm.trans hstopped) (by simp)
    · exact h

/-- No address is in the list twice. The counter is right after events that keep it in step, and,
below 2^31 events, only then. -/
theorem ip_mac_count_iff (events : List IpMacEvent) :
    (run IpMacEvent.step events McIpMac.init).Distinct ∧
    (Allowed IpMacEvent.step IpMacEvent.Counts events McIpMac.init →
      (run IpMacEvent.step events McIpMac.init).count =
        (run IpMacEvent.step events McIpMac.init).entries.length) ∧
    (events.length < 2 ^ 31 →
      (run IpMacEvent.step events McIpMac.init).count =
        (run IpMacEvent.step events McIpMac.init).entries.length →
      Allowed IpMacEvent.step IpMacEvent.Counts events McIpMac.init) := by
  have hlags := run_lags events
  refine ⟨?_, ?_, ?_⟩
  · apply run_invariant (P := McIpMac.Distinct)
    · intro event _ s hdistinct
      exact hdistinct.step event
    · exact nodup_nil
  · intro hallowed
    have hreach : Reaches IpMacEvent.step IpMacEvent.Counts McIpMac.init
        (run IpMacEvent.step events McIpMac.init) :=
      Reaches.start.run_allowed hallowed
    have hsingle : (run IpMacEvent.step events McIpMac.init).Single :=
      hreach.invariant ⟨Nat.zero_le 1, fun _ => rfl⟩ (fun event s hcounts h => h.step hcounts)
    have hshort := hsingle.short
    rw [(violations_eq_zero_iff _ _ _ _).mpr hallowed] at hlags
    rw [hlags, s32_of_range] <;> omega
  · intro hfew hcount
    have hbound := violations_le IpMacEvent.step IpMacEvent.Counts events McIpMac.init
    rw [← violations_eq_zero_iff]
    rw [hlags] at hcount
    have hmod := congrArg (· % (2 : Int) ^ 32) hcount
    simp only [s32_emod] at hmod
    omega

def igmpFrom (host : UInt8) : Frame where
  dev := ⟨2, []⟩
  brPort := some 1
  protocol := ethPIp
  hDest := 0x01005e010101
  hSource := host.toNat
  data := fun i => if i = 9 then ipprotoIgmp else if i = 15 then host else 0

/-- One host, seen twice. -/
theorem one_host_counted :
    (run IpMacEvent.step [.learn ⟨0, true⟩ (igmpFrom 2), .learn ⟨1, true⟩ (igmpFrom 2)]
      McIpMac.init).count =
    (run IpMacEvent.step [.learn ⟨0, true⟩ (igmpFrom 2), .learn ⟨1, true⟩ (igmpFrom 2)]
      McIpMac.init).entries.length := by
  apply (ip_mac_count_iff _).2.1
  refine ⟨fun _ _ => .inr (.inr rfl), fun _ _ => .inl ?_, trivial⟩
  exact ⟨_, mem_cons_self, rfl, rfl⟩

/-- The second host is not counted. -/
theorem second_host_not_counted :
    (run IpMacEvent.step [.learn ⟨0, true⟩ (igmpFrom 2), .learn ⟨1, true⟩ (igmpFrom 3)]
      McIpMac.init).entries.length = 2 ∧
    (run IpMacEvent.step [.learn ⟨0, true⟩ (igmpFrom 2), .learn ⟨1, true⟩ (igmpFrom 3)]
      McIpMac.init).count = 1 := by
  decide +kernel

end EchoLife.Bridge
