import EchoLife.Bridge.Kernel

/-!
How bridges, ports and devices refer to each other, through every interleaving of
administration with the rest. A port is disabled while it is put on its bridge and
when it is taken off, so a port that takes in frames is on the list of a bridge.
-/

namespace EchoLife.Bridge

open Function List Option

variable {next : Kernel}

/-- `br_add_if` has set `br_port` and not yet put the port on the list. -/
def Rtnl.adding : Rtnl → Bool
  | .linking _ _ _ => true
  | _ => false

namespace Kernel

def Attached (k : Kernel) (p : Nat) : Prop :=
  ∃ b, p ∈ k.portsOf b

variable {b : Nat} {k : Kernel}

theorem portsOf_setBridge_other (k : Kernel) {c : Nat} (br : Option BridgeDevice)
    (hother : c ≠ b) : (k.setBridge b br).portsOf c = k.portsOf c := by
  simp only [portsOf, setBridge, update_of_ne hother]

theorem portsOf_setBridge_self (k : Kernel) (b : Nat) (br : Option BridgeDevice) :
    (k.setBridge b br).portsOf b =
      match br with
      | none => []
      | some br => br.portList := by
  cases br with
  | none => simp only [portsOf, setBridge, update_self]
  | some br => simp only [portsOf, setBridge, update_self]

variable {br : BridgeDevice} {p : Nat}

theorem portsOf_setBridge_same (k : Kernel) (b : Nat) (hlist : br.portList = k.portsOf b)
    (c : Nat) : (k.setBridge b (some br)).portsOf c = k.portsOf c := by
  rcases eq_or_ne c b with rfl | hother
  · rw [portsOf_setBridge_self]
    exact hlist
  · exact k.portsOf_setBridge_other _ hother

private theorem portsOf_of_some (h : k.bridge b = some br) : k.portsOf b = br.portList := by
  simp only [portsOf, h]

theorem portsOf_setPorts_other (k : Kernel) {c : Nat} (ports : List Nat) (hother : c ≠ b) :
    (k.setPorts b ports).portsOf c = k.portsOf c :=
  k.portsOf_setBridge_other _ hother

theorem portsOf_setPorts_self (k : Kernel) (ports : List Nat)
    (hexists : (k.bridge b).isSome) : (k.setPorts b ports).portsOf b = ports := by
  obtain ⟨br, hbr⟩ := isSome_iff_exists.mp hexists
  simp only [setPorts, portsOf_setBridge_self, hbr, map_some]

/-- The ports are the same, each with its bridge and its device. Only states may
differ. -/
structure SamePorts (k next : Kernel) : Prop where
  ports : ∀ b, next.portsOf b = k.portsOf b
  br : ∀ p, (next.port p).br = (k.port p).br
  dev : ∀ p, (next.port p).dev = (k.port p).dev
  brPort : next.brPort = k.brPort

theorem SamePorts.refl (k : Kernel) : SamePorts k k :=
  ⟨fun _ => rfl, fun _ => rfl, fun _ => rfl, rfl⟩

theorem SamePorts.withRest (h : SamePorts k next) (snooping : SnoopingList) (rtnl : Rtnl) :
    SamePorts k { next with snooping := snooping, rtnl := rtnl } :=
  ⟨h.ports, h.br, h.dev, h.brPort⟩

theorem SamePorts.setState (k : Kernel) (p : Nat) (state : PortState) :
    SamePorts k (k.setState p state) := by
  refine ⟨fun _ => rfl, ?_, ?_, rfl⟩
  · intro q
    rcases eq_or_ne q p with rfl | hother
    · simp only [Kernel.setState, update_self]
    · simp only [Kernel.setState, update_of_ne hother]
  · intro q
    rcases eq_or_ne q p with rfl | hother
    · simp only [Kernel.setState, update_self]
    · simp only [Kernel.setState, update_of_ne hother]

/-- What the holder of the mutex has still to take off the bridge that it deletes. -/
def remaining (k : Kernel) : Option (Nat × List Nat) :=
  match k.rtnl with
  | .deleting ports (some b) => some (b, ports)
  | .unlinking p rest (some b) => some (b, p :: rest)
  | _ => none

/-- A port that a device refers to is on its bridge, or is being added and still disabled; a
bridge that is being deleted has no ports but those still to be taken off. -/
structure Wired (k : Kernel) : Prop where
  owner : ∀ b, ∀ p ∈ k.portsOf b, (k.port p).br = b
  device : ∀ d p, k.brPort d = some p → (k.port p).dev.ifindex = d
  linked : ∀ d p, k.brPort d = some p → k.Attached p ∨ ∃ b ready, k.rtnl = .linking b p ready
  linking : ∀ b p ready, k.rtnl = .linking b p ready →
    (k.bridge b).isSome ∧ (k.port p).br = b ∧ (k.port p).state = .disabled
  removing : ∀ b ports, k.remaining = some (b, ports) → k.portsOf b ⊆ ports

/-- The port of a device is in the list of its bridge, unless it is still disabled. -/
theorem Wired.attached (h : k.Wired) {d : Nat} (hport : k.brPort d = some p)
    (hstate : (k.port p).state ≠ .disabled) : k.Attached p := by
  rcases h.linked d p hport with hattached | ⟨b, ready, hlinking⟩
  · exact hattached
  · exact absurd (h.linking b p ready hlinking).2.2 hstate

theorem SamePorts.attached (hsame : SamePorts k next) (h : k.Attached p) : next.Attached p := by
  obtain ⟨b, hb⟩ := h
  exact ⟨b, by rw [hsame.ports]; exact hb⟩

/-- Wiring carries over to a state with the same ports, if what is under way fits. -/
theorem Wired.of_same (h : k.Wired) (hsame : SamePorts k next)
    (hkept : ∀ b p ready, k.rtnl = .linking b p ready → next.rtnl = .linking b p ready)
    (hlinking : ∀ b p ready, next.rtnl = .linking b p ready →
      (next.bridge b).isSome ∧ (next.port p).br = b ∧ (next.port p).state = .disabled)
    (hremaining : ∀ b ports, next.remaining = some (b, ports) → k.portsOf b ⊆ ports) :
    next.Wired where
  owner := by
    intro b p hp
    rw [hsame.ports] at hp
    rw [hsame.br]
    exact h.owner b p hp
  device := by
    intro d p hport
    rw [hsame.brPort] at hport
    rw [hsame.dev]
    exact h.device d p hport
  linked := by
    intro d p hport
    rw [hsame.brPort] at hport
    rcases h.linked d p hport with hattached | ⟨b, ready, hlink⟩
    · exact .inl (hsame.attached hattached)
    · exact .inr ⟨b, ready, hkept b p ready hlink⟩
  linking := hlinking
  removing := by
    intro b ports hports
    rw [hsame.ports]
    exact hremaining b ports hports

theorem Wired.withSnooping (h : k.Wired) (snooping : SnoopingList) :
    Wired { k with snooping := snooping } :=
  ⟨h.owner, h.device, h.linked, h.linking, h.removing⟩

theorem Wired.setState (h : k.Wired) (hstate : (k.port p).state ≠ .disabled) (state : PortState) :
    (k.setState p state).Wired := by
  refine h.of_same (.setState k p state) (fun _ _ _ => id) ?_ h.removing
  intro b q ready hlinking
  obtain ⟨hexists, hbr, hdisabled⟩ := h.linking b q ready hlinking
  have hother : q ≠ p := by
    rintro rfl
    exact hstate hdisabled
  refine ⟨hexists, ?_, ?_⟩
  · simp only [Kernel.setState, update_of_ne hother]
    exact hbr
  · simp only [Kernel.setState, update_of_ne hother]
    exact hdisabled

structure Quiet (k next : Kernel) : Prop where
  same : SamePorts k next
  before : k.rtnl.adding = false
  after : next.rtnl.adding = false
  removing : ∀ b ports, next.remaining = some (b, ports) → k.portsOf b ⊆ ports

theorem Wired.of_quiet (h : k.Wired) (hquiet : Quiet k next) : next.Wired := by
  refine h.of_same hquiet.same ?_ ?_ hquiet.removing
  · intro b p ready hlink
    have hadding := hquiet.before
    rw [hlink] at hadding
    cases hadding
  · intro b p ready hlink
    have hadding := hquiet.after
    rw [hlink] at hadding
    cases hadding

theorem SamePorts.newBridge (hnone : k.bridge b = none) :
    SamePorts k (k.setBridge b (some ⟨false, []⟩)) := by
  have hlist : (⟨false, []⟩ : BridgeDevice).portList = k.portsOf b := by
    simp only [portsOf, hnone]
  exact ⟨k.portsOf_setBridge_same b hlist, fun _ => rfl, fun _ => rfl, rfl⟩

theorem SamePorts.setDevice (hbridge : k.bridge b = some br) (up : Bool) (state : Nat → PortState) :
    SamePorts k { k.setBridge b (some { br with up := up }) with
      port := fun p => { k.port p with state := state p } } := by
  have hlist : ({ br with up := up } : BridgeDevice).portList = k.portsOf b :=
    (portsOf_of_some hbridge).symm
  exact ⟨k.portsOf_setBridge_same b hlist, fun _ => rfl, fun _ => rfl, rfl⟩

/-- A new port gets the reference of its device before it is put on the bridge. -/
theorem Wired.addIf (h : k.Wired) (hfree : k.rtnl = .free) {dev : NetDevice}
    (ready : Bool) (hexists : (k.bridge b).isSome) (hports : ∀ c, p ∉ k.portsOf c)
    (hdevices : ∀ d, k.brPort d ≠ some p) :
    Wired { k with
      port := update k.port p ⟨⟨dev, .disabled⟩, b⟩
      brPort := update k.brPort dev.ifindex (some p)
      rtnl := .linking b p ready } where
  owner := by
    intro c q hq
    have hother : q ≠ p := by
      rintro rfl
      exact hports c hq
    simp only [update_of_ne hother]
    exact h.owner c q hq
  device := by
    intro d q hport
    rcases eq_or_ne d dev.ifindex with rfl | hother
    · simp only [update_self, some.injEq] at hport
      subst hport
      simp only [update_self]
    simp only [update_of_ne hother] at hport
    have hq : q ≠ p := by
      rintro rfl
      exact hdevices d hport
    simp only [update_of_ne hq]
    exact h.device d q hport
  linked := by
    intro d q hport
    rcases eq_or_ne d dev.ifindex with rfl | hother
    · simp only [update_self, some.injEq] at hport
      subst hport
      exact .inr ⟨b, ready, rfl⟩
    simp only [update_of_ne hother] at hport
    rcases h.linked d q hport with hattached | ⟨c, ready', hlinking⟩
    · exact .inl hattached
    · rw [hfree] at hlinking
      cases hlinking
  linking := by
    intro c q ready' hlinking
    cases hlinking
    refine ⟨hexists, ?_, ?_⟩
    · simp only [update_self]
    · simp only [update_self]
  removing := by
    nofun

/-- A request leaves the ports as they are, or starts to add one that is not linked yet. -/
theorem request_cases (hfree : k.rtnl = .free) {r : Request} (hok : r.perform k = .ok next) :
    Quiet k next ∨
    ∃ b dev kind p ready, r = .addIf b dev kind p ready ∧ (k.bridge b).isSome ∧ next = { k with
        port := update k.port p ⟨⟨dev, .disabled⟩, b⟩
        brPort := update k.brPort dev.ifindex (some p)
        rtnl := .linking b p ready } := by
  have hbefore : k.rtnl.adding = false := by
    rw [hfree]
    rfl
  have hfreed {next : Kernel} (hsame : SamePorts k next) (hrtnl : next.rtnl = k.rtnl) :
      Quiet k next := by
    refine ⟨hsame, hbefore, hrtnl ▸ hbefore, ?_⟩
    intro b ports hremaining
    simp only [remaining, hrtnl, hfree] at hremaining
    cases hremaining
  cases r with
  | addBridge b =>
    left
    simp only [Request.perform, brAddBridge] at hok
    split at hok
    next hnone =>
      cases hok
      exact hfreed (.newBridge hnone) rfl
    · cases hok
  | delBridge b =>
    left
    simp only [Request.perform, brDelBridge] at hok
    split at hok
    · cases hok
    split at hok
    · cases hok
    cases hok
    refine ⟨(SamePorts.refl k).withRest _ _, hbefore, rfl, ?_⟩
    rintro c ports ⟨⟩
  | addIf b dev kind p ready =>
    right
    simp only [Request.perform, brAddIf] at hok
    split at hok
    · cases hok
    · cases hok
    · cases hok
    · cases hok
    rename_i hbr _
    split at hok
    · cases hok
    · cases hok
      exact ⟨b, dev, .ethernet, p, ready, rfl, by rw [hbr]; rfl, rfl⟩
  | delIf b dev =>
    left
    simp only [Request.perform, brDelIf] at hok
    split at hok
    · cases hok
    split at hok
    · cases hok
      refine ⟨(SamePorts.refl k).withRest _ _, hbefore, rfl, ?_⟩
      rintro c ports ⟨⟩
    · cases hok
  | devOpen b ready =>
    left
    simp only [Request.perform, brDevOpen] at hok
    split at hok
    · cases hok
    rename_i br hbr
    cases hok
    exact hfreed (.setDevice hbr true _) rfl
  | devStop b =>
    left
    simp only [Request.perform, brDevStop] at hok
    split at hok
    · cases hok
    rename_i br hbr
    cases hok
    exact hfreed (.setDevice hbr false _) rfl
  | setLink dev state =>
    left
    simp only [Request.perform, brRtmSetlink] at hok
    split at hok
    · cases hok
    rename_i p _
    cases hok
    exact hfreed (.setState k p state) rfl

theorem mem_portsOf_link (hexists : (k.bridge b).isSome) (p c q : Nat) :
    q ∈ (k.setPorts b (p :: k.portsOf b)).portsOf c ↔ q ∈ k.portsOf c ∨ c = b ∧ q = p := by
  rcases eq_or_ne c b with rfl | hother
  · rw [k.portsOf_setPorts_self _ hexists, mem_cons]
    tauto
  · rw [k.portsOf_setPorts_other _ hother]
    tauto

section

variable (h : k.Wired)
include h

/-- The new port enters the list of its bridge. -/
theorem Wired.link {ready : Bool} (hrtnl : k.rtnl = .linking b p ready) :
    Wired { k.setPorts b (p :: k.portsOf b) with rtnl := .enabling b p ready } := by
  obtain ⟨hexists, hbr, _⟩ := h.linking b p ready hrtnl
  have hmem := mem_portsOf_link hexists p
  constructor
  · intro c q hq
    rcases (hmem c q).mp hq with hold | ⟨rfl, rfl⟩
    · exact h.owner c q hold
    · exact hbr
  · exact h.device
  · intro d q hport
    left
    rcases h.linked d q hport with ⟨c, hc⟩ | ⟨c, ready', hlinking⟩
    · exact ⟨c, (hmem c q).mpr (.inl hc)⟩
    rw [hrtnl] at hlinking
    cases hlinking
    exact ⟨b, (hmem b p).mpr (.inr ⟨rfl, rfl⟩)⟩
  · nofun
  · nofun

theorem mem_portsOf_unlink (p : Nat) (rest : List Nat) (b : Option Nat) (c q : Nat) :
    q ∈ (k.unlink p rest b).portsOf c ↔ q ∈ k.portsOf c ∧ q ≠ p := by
  show q ∈ (k.setPorts _ _).portsOf c ↔ _
  rcases eq_or_ne c (k.port p).br with rfl | hother
  · cases hexists : (k.bridge (k.port p).br).isSome with
    | true =>
      rw [k.portsOf_setPorts_self _ hexists]
      simp
    | false =>
      have hnone := isSome_eq_false_iff.mp hexists
      simp [setPorts, portsOf, setBridge, isNone_iff_eq_none.mp hnone]
  · rw [k.portsOf_setPorts_other _ hother]
    constructor
    · intro hq
      refine ⟨hq, ?_⟩
      rintro rfl
      exact hother (h.owner c q hq).symm
    · exact And.left

/-- A port leaves its bridge and the device that it was the port of. -/
theorem Wired.unlink {rest : List Nat} {b : Option Nat}
    (hrtnl : k.rtnl = .unlinking p rest b) : (k.unlink p rest b).Wired := by
  have hmem := mem_portsOf_unlink h p rest b
  have hport {d q : Nat} (hnext : (k.unlink p rest b).brPort d = some q) :
      k.brPort d = some q ∧ q ≠ p := by
    simp only [Kernel.unlink, update_apply] at hnext
    split at hnext
    · cases hnext
    rename_i hother
    refine ⟨hnext, ?_⟩
    rintro rfl
    exact hother (h.device d q hnext).symm
  constructor
  · intro c q hq
    exact h.owner c q ((hmem c q).mp hq).1
  · intro d q hnext
    exact h.device d q (hport hnext).1
  · intro d q hnext
    obtain ⟨hold, hq⟩ := hport hnext
    rcases h.linked d q hold with ⟨c, hc⟩ | ⟨c, ready, hlinking⟩
    · exact .inl ⟨c, (hmem c q).mpr ⟨hc, hq⟩⟩
    · rw [hrtnl] at hlinking
      cases hlinking
  · nofun
  · intro c ports hremaining
    cases b with
    | none => cases hremaining
    | some b =>
      cases hremaining
      intro q hq
      obtain ⟨hold, hother⟩ := (hmem c q).mp hq
      have hleft := h.removing c (p :: rest) (by simp only [remaining, hrtnl]) hold
      exact (mem_cons.mp hleft).resolve_left hother

theorem SamePorts.unregister (hrtnl : k.rtnl = .deleting [] (some b)) :
    SamePorts k { k.setBridge b none with rtnl := .free } := by
  have hempty : k.portsOf b = [] :=
    subset_nil.mp (h.removing b [] (by simp only [remaining, hrtnl]))
  refine ⟨?_, fun _ => rfl, fun _ => rfl, rfl⟩
  intro c
  show (k.setBridge b none).portsOf c = k.portsOf c
  rcases eq_or_ne c b with rfl | hother
  · rw [portsOf_setBridge_self, hempty]
  · exact k.portsOf_setBridge_other none hother

/-- What a step under the lock can do: nothing to the ports, or link or unlink one. -/
theorem resume_cases :
    k.resume = k ∨ Quiet k k.resume ∨
    (∃ b p ready, k.rtnl = .linking b p ready ∧
      k.resume = { k.setPorts b (p :: k.portsOf b) with rtnl := .enabling b p ready }) ∨
    ∃ p rest b, k.rtnl = .unlinking p rest b ∧ k.resume = k.unlink p rest b := by
  unfold resume
  split
  · exact .inl rfl
  next b p ready hrtnl =>
    exact .inr (.inr (.inl ⟨b, p, ready, hrtnl, rfl⟩))
  next b p ready hrtnl =>
    have hbefore : k.rtnl.adding = false := by rw [hrtnl]; rfl
    right; left
    split
    · refine ⟨(SamePorts.setState k p _).withRest _ _, hbefore, rfl, ?_⟩
      nofun
    · refine ⟨(SamePorts.refl k).withRest _ _, hbefore, rfl, ?_⟩
      nofun
  next b hrtnl =>
    right; left
    refine ⟨(SamePorts.refl k).withRest _ _, by rw [hrtnl]; rfl, rfl, ?_⟩
    intro c ports hremaining
    cases hremaining
    exact List.Subset.refl _
  next p rest b hrtnl =>
    right; left
    refine ⟨(SamePorts.setState k p _).withRest _ _, by rw [hrtnl]; rfl, rfl, ?_⟩
    intro c ports hremaining
    apply h.removing c ports
    rw [← hremaining]
    cases b with
    | none => simp only [remaining, hrtnl]
    | some b => simp only [remaining, hrtnl]
  next p rest b hrtnl =>
    exact .inr (.inr (.inr ⟨p, rest, b, hrtnl, rfl⟩))
  next b hrtnl =>
    right; left
    refine ⟨.unregister h hrtnl, by rw [hrtnl]; rfl, rfl, ?_⟩
    nofun
  next hrtnl =>
    right; left
    refine ⟨(SamePorts.refl k).withRest _ _, by rw [hrtnl]; rfl, rfl, ?_⟩
    nofun

end

end Kernel

/-- Wiring is kept by every possible event, in the middle of additions and deletions too. -/
theorem Event.wired_step {event : Event} {k : Kernel} (hpossible : event.Possible k)
    (h : k.Wired) : (event.step k).Wired := by
  cases event with
  | request r =>
    simp only [step]
    split
    next hfree =>
      split
      next next hok =>
        rcases Kernel.request_cases hfree hok with
          hquiet | ⟨b, dev, kind, p, ready, rfl, hexists, rfl⟩
        · exact h.of_quiet hquiet
        · exact h.addIf hfree ready hexists hpossible.1 hpossible.2
      · exact h
    · exact h
  | resume =>
    simp only [step]
    rcases Kernel.resume_cases h with
      hnext | hquiet | ⟨b, p, ready, hrtnl, hnext⟩ | ⟨p, rest, b, hrtnl, hnext⟩
    · rw [hnext]
      exact h
    · exact h.of_quiet hquiet
    · rw [hnext]
      exact h.link hrtnl
    · rw [hnext]
      exact h.unlink hrtnl
  | stp p state =>
    simp only [step]
    split
    next hstate =>
      exact h.setState hstate.1 state
    · exact h
  | receive env skb =>
    simp only [step]
    split
    · exact h
    · exact h.withSnooping _
  | expire env => exact h.withSnooping _
  | clear => exact h.withSnooping _
  | setEnable enable => exact h.withSnooping _

theorem Kernel.wired_initial (memory : Nat → BridgePort) : (initial memory).Wired where
  owner := by
    nofun
  device := by
    nofun
  linked := by
    nofun
  linking := by
    nofun
  removing := by
    nofun

/-- A port stays attached until it is unlinked. -/
theorem Kernel.Attached.step {k : Kernel} (hwired : k.Wired) {p : Nat} (h : k.Attached p)
    {event : Event} (hkept : event = .resume → ∀ rest b, k.rtnl ≠ .unlinking p rest b) :
    (event.step k).Attached p := by
  obtain ⟨b, hb⟩ := h
  cases event with
  | request r =>
    simp only [Event.step]
    split
    next hfree =>
      split
      next next hok =>
        rcases request_cases hfree hok with hquiet | ⟨_, _, _, _, _, _, _, rfl⟩
        · exact hquiet.same.attached ⟨b, hb⟩
        · exact ⟨b, hb⟩
      · exact ⟨b, hb⟩
    · exact ⟨b, hb⟩
  | resume =>
    simp only [Event.step]
    rcases resume_cases hwired with
      hnext | hquiet | ⟨c, q, ready, hrtnl, hnext⟩ | ⟨q, rest, c, hrtnl, hnext⟩
    · rw [hnext]
      exact ⟨b, hb⟩
    · exact hquiet.same.attached ⟨b, hb⟩
    · have hexists := (hwired.linking c q ready hrtnl).1
      rw [hnext]
      exact ⟨b, (mem_portsOf_link hexists q b p).mpr (.inl hb)⟩
    · rw [hnext]
      refine ⟨b, (mem_portsOf_unlink hwired q rest c b p).mpr ⟨hb, ?_⟩⟩
      rintro rfl
      exact hkept rfl rest c hrtnl
  | stp q state =>
    simp only [Event.step]
    split
    · exact ⟨b, hb⟩
    · exact ⟨b, hb⟩
  | receive env skb =>
    simp only [Event.step]
    split
    · exact ⟨b, hb⟩
    · exact ⟨b, hb⟩
  | expire env => exact ⟨b, hb⟩
  | clear => exact ⟨b, hb⟩
  | setEnable enable => exact ⟨b, hb⟩

end EchoLife.Bridge
