import EchoLife.Base.Text

/-!
The option with classless routes, and the file that the client makes of it. A route is its width,
the octets of its destination that the width needs, and its router. The client writes a line of
text for each static route and takes the router of a route of width zero for the default gateway.
-/

namespace EchoLife.Dhcp.Client

open List Text UInt8

/-! ### Routes -/

/-- A route over the interface, as the kernel has it. -/
structure Entry where
  net : Address
  mask : Address
  gateway : Address
  deriving DecidableEq

structure Route where
  width : Nat
  octets : List UInt8
  router : Address
  width_le : width ≤ 32
  length_octets : octets.length = (width + 7) / 8

def Route.encode (r : Route) : List UInt8 :=
  ofNat r.width :: (r.octets ++ r.router.octets)

def encodeAll (routes : List Route) : List UInt8 :=
  routes.flatMap Route.encode

def Route.destination (r : Route) : Address :=
  ⟨r.octets.getD 0 0, r.octets.getD 1 0, r.octets.getD 2 0, r.octets.getD 3 0⟩

def Route.entry (r : Route) : Entry :=
  ⟨r.destination.and (subnetMask r.width), subnetMask r.width, r.router⟩

def staticEntries (routes : List Route) : List Entry :=
  (routes.filter (fun r => r.width ≠ 0)).map Route.entry

/-- The router of the route of width zero, of the last one if there are several. -/
def zeroWidth (routes : List Route) : Option Address :=
  (routes.filter (fun r => r.width = 0)).getLast?.map Route.router

/-! ### The file -/

def addressAt (data : Nat → UInt8) (i : Nat) : Address :=
  ⟨data i, data (i + 1), data (i + 2), data (i + 3)⟩

def mask : List UInt8 :=
  [128, 192, 224, 240, 248, 252, 254, 255]

/-- The branch for destinations of `k` octets, if all of the route is there. -/
def routeBranch (maskwidth i len : Nat) : Option Nat :=
  [1, 2, 3, 4].find? (fun k =>
    decide (8 * k - 7 ≤ maskwidth ∧ maskwidth ≤ 8 * k ∧ i + k + 4 < len))

/-- An octet of the mask, which has `k` octets that are not zero. -/
def subMask (maskwidth k j : Nat) : UInt8 :=
  if j + 1 < k then 255
  else if j + 1 = k then mask.getD (maskwidth - (8 * k - 7)) 0
  else 0

section
variable (option121 : Nat → UInt8)

/-- An octet of the destination. Those before the last one are taken as they are. -/
def destIp (i k j : Nat) : UInt8 :=
  if j + 1 < k then option121 (i + 1 + j)
  else if j + 1 = k then
    option121 (i + 1 + j) &&& mask.getD ((option121 i).toNat - (8 * k - 7)) 0
  else 0

def branchEntry (i k : Nat) : Entry where
  net := addressAt (destIp option121 i k) 0
  mask := addressAt (subMask (option121 i).toNat k) 0
  gateway := addressAt option121 (i + k + 1)

/-- The conversion `%s %s %s`. -/
def Entry.text (e : Entry) : List UInt8 :=
  e.net.text ++ 32 :: (e.mask.text ++ 32 :: e.gateway.text)

/-- The loop, which leaves the file and `router_ip`, or nothing while it goes on. It stops at a
width that is too large and at a route that is not all there. -/
def fileSaveRouteLoop (option121 : Nat → UInt8) (len : Nat) :
    Nat → Nat → List UInt8 → List UInt8 → Option (List UInt8 × List UInt8)
  | 0, _, _, _ => none
  | fuel + 1, i, file, routerIp =>
    if i < len then
      if (option121 i).toNat = 0 ∧ i + 4 < len then
        fileSaveRouteLoop option121 len fuel (i + 5) file (addressAt option121 (i + 1)).text
      else
        match routeBranch (option121 i).toNat i len with
        | some k =>
          fileSaveRouteLoop option121 len fuel (i + k + 5)
            (file ++ ((branchEntry option121 i k).text ++ [10])) routerIp
        | none => some (file, routerIp)
    else some (file, routerIp)

/-- What the loop makes of the option once the file is open. Every route takes a byte at least. -/
def saveRoutes (option121 : List UInt8) (routerIp : List UInt8) :
    Option (List UInt8 × List UInt8) :=
  fileSaveRouteLoop (CString.buffer option121) option121.length (option121.length + 1) 0 [] routerIp

/-- `file_save_route`: the file, if it is written, and `router_ip`. Without a path of the session,
and if `fopen` fails, it returns at once. -/
def fileSaveRoute (sessionPath : List UInt8) (fopenOk : Bool) (option121 routerIp : List UInt8) :
    Option (Option (List UInt8) × List UInt8) :=
  if sessionPath = [] then some (none, routerIp)
  else if fopenOk then (saveRoutes option121 routerIp).map fun r => (some r.1, r.2)
  else some (none, routerIp)

/-! ### What the file has -/

def fileOf (entries : List Entry) : List UInt8 :=
  (entries.map Entry.text).flatMap (fun text => text ++ [10])

def StandsAt (i : Nat) (bytes : List UInt8) : Prop :=
  ∀ d, d < bytes.length → option121 (i + d) = bytes.getD d 0

end

variable {option121 : Nat → UInt8} {i maskwidth len : Nat} {r : Route}

section

variable {first second : List UInt8} (h : StandsAt option121 i (first ++ second))
include h

theorem StandsAt.left : StandsAt option121 i first := by
  intro d hd
  rw [h d (by rw [length_append]; omega), getD_append _ _ _ _ hd]

theorem StandsAt.right : StandsAt option121 (i + first.length) second := by
  intro d hd
  rw [add_assoc, h _ (by rw [length_append]; omega),
    getD_append_right _ _ _ _ (Nat.le_add_right _ _), Nat.add_sub_cancel_left]

end

theorem StandsAt.addressAt {x : Address} (h : StandsAt option121 i x.octets) :
    addressAt option121 i = x := by
  have ha := h 0 (by simp [Address.octets])
  have hb := h 1 (by simp [Address.octets])
  have hc := h 2 (by simp [Address.octets])
  have hd := h 3 (by simp [Address.octets])
  simp only [Address.octets, add_zero, getD_cons_zero, getD_cons_succ] at ha hb hc hd
  simp only [Client.addressAt, ha, hb, hc, hd]

theorem Route.length_encode (r : Route) : r.encode.length = r.octets.length + 5 := by
  simp [Route.encode, Address.octets]

section

variable (h : StandsAt option121 i r.encode)
include h

theorem StandsAt.width : (option121 i).toNat = r.width := by
  have hwidth := h 0 (by rw [r.length_encode]; omega)
  have hle := r.width_le
  rw [add_zero] at hwidth
  rw [hwidth, Route.encode, getD_cons_zero, toNat_ofNat']
  omega

theorem StandsAt.rest : StandsAt option121 (i + 1) (r.octets ++ r.router.octets) := by
  have hcons : StandsAt option121 i ([ofNat r.width] ++ (r.octets ++ r.router.octets)) := h
  exact hcons.right

theorem StandsAt.octet {j : Nat}
    (hj : j < r.octets.length) : option121 (i + 1 + j) = r.octets.getD j 0 :=
  h.rest.left j hj

theorem StandsAt.router : Client.addressAt option121 (i + 1 + r.octets.length) = r.router :=
  h.rest.right.addressAt

end

theorem mask_getD {n : Nat} (h : n < 8) : mask.getD n 0 = maskOctet (n + 1) := by
  have hall : ∀ n < 8, mask.getD n 0 = maskOctet (n + 1) := by
    decide
  exact hall n h

private theorem subMask_eq {k : Nat} (hk : k = (maskwidth + 7) / 8) (j : Nat) :
    subMask maskwidth k j = maskOctet (maskwidth - 8 * j) := by
  unfold subMask
  split
  · rw [maskOctet_of_le (by omega)]
  split
  · rw [mask_getD (by omega)]
    congr 1
    omega
  · rw [Nat.sub_eq_zero_of_le (by omega)]
    rfl

private theorem destIp_eq (h : StandsAt option121 i r.encode) (j : Nat) :
    destIp option121 i r.octets.length j = r.octets.getD j 0 &&& maskOctet (r.width - 8 * j) := by
  have hlength := r.length_octets
  unfold destIp
  split
  · rw [h.octet (by omega), maskOctet_of_le (by omega)]
    exact and_neg_one.symm
  split
  · rw [h.octet (by omega), h.width, mask_getD (by omega)]
    congr 2
    omega
  · rw [getD_eq_default _ _ (by omega), UInt8.zero_and]

/-- The branch for a width builds the entry of the route that stands there. -/
private theorem branchEntry_eq (h : StandsAt option121 i r.encode) :
    branchEntry option121 i r.octets.length = r.entry := by
  have hplace : i + r.octets.length + 1 = i + 1 + r.octets.length := by omega
  simp only [branchEntry, addressAt, destIp_eq h, h.width, subMask_eq r.length_octets, hplace]
  have hrouter := h.router
  simp only [addressAt] at hrouter
  rw [hrouter]
  rfl

private theorem routeBranch_eq (hpos : maskwidth ≠ 0)
    (hle : maskwidth ≤ 32) (hlen : i + (maskwidth + 7) / 8 + 4 < len) :
    routeBranch maskwidth i len = some ((maskwidth + 7) / 8) := by
  have hoctets : (maskwidth + 7) / 8 = 1 ∨ (maskwidth + 7) / 8 = 2 ∨
      (maskwidth + 7) / 8 = 3 ∨ (maskwidth + 7) / 8 = 4 := by omega
  unfold routeBranch
  rcases hoctets with hk | hk | hk | hk
  · rw [hk, find?_cons_of_pos (by simp; omega)]
  · rw [hk, find?_cons_of_neg (by simp; omega), find?_cons_of_pos (by simp; omega)]
  · rw [hk, find?_cons_of_neg (by simp; omega), find?_cons_of_neg (by simp; omega),
      find?_cons_of_pos (by simp; omega)]
  · rw [hk, find?_cons_of_neg (by simp; omega), find?_cons_of_neg (by simp; omega),
      find?_cons_of_neg (by simp; omega), find?_cons_of_pos (by simp; omega)]

/-- One round with a route in front of it: the default route goes to `router_ip`, others to the
file. -/
private theorem fileSaveRouteLoop_route (h : StandsAt option121 i r.encode)
    (hlen : i + r.encode.length ≤ len) (fuel : Nat) (file routerIp : List UInt8) :
    fileSaveRouteLoop option121 len (fuel + 1) i file routerIp =
      if r.width = 0 then
        fileSaveRouteLoop option121 len fuel (i + r.encode.length) file r.router.text
      else
        fileSaveRouteLoop option121 len fuel (i + r.encode.length)
          (file ++ (r.entry.text ++ [10])) routerIp := by
  have hlength := r.length_octets
  have hencode := r.length_encode
  have hnext : i + r.encode.length = i + r.octets.length + 5 := by omega
  rw [fileSaveRouteLoop, if_pos (by omega), h.width, hnext]
  split
  next hzero =>
    have hnone : r.octets.length = 0 := by omega
    have hrouter := h.router
    rw [hnone] at hrouter
    rw [if_pos hzero.1, hnone, ← hrouter]
  next hstatic =>
    have hpos : r.width ≠ 0 := fun hzero => hstatic ⟨hzero, by omega⟩
    rw [if_neg hpos, routeBranch_eq hpos r.width_le (by omega), ← hlength, ← branchEntry_eq h]

theorem fileOf_cons (e : Entry) (rest : List Entry) :
    fileOf (e :: rest) = e.text ++ [10] ++ fileOf rest := by
  simp [fileOf]

private theorem staticEntries_cons (r : Route) (rest : List Route) :
    staticEntries (r :: rest) =
      if r.width = 0 then staticEntries rest else r.entry :: staticEntries rest := by
  unfold staticEntries
  by_cases hzero : r.width = 0
  · simp [hzero]
  · simp [hzero]

private theorem zeroWidth_cons (r : Route) (rest : List Route) :
    zeroWidth (r :: rest) =
      if r.width = 0 then some ((zeroWidth rest).getD r.router) else zeroWidth rest := by
  unfold zeroWidth
  by_cases hzero : r.width = 0
  · simp only [hzero, decide_true, filter_cons_of_pos, getLast?_cons, Option.map_some, if_true]
    cases (rest.filter (fun r => r.width = 0)).getLast? with
    | none => rfl
    | some last => rfl
  · simp [hzero]

/-- As many rounds as there are routes, by induction on them. -/
theorem fileSaveRouteLoop_routes {routes : List Route} (h : StandsAt option121 i (encodeAll routes))
    (hlen : i + (encodeAll routes).length ≤ len) (fuel : Nat) (file routerIp : List UInt8) :
    fileSaveRouteLoop option121 len (fuel + routes.length) i file routerIp =
      fileSaveRouteLoop option121 len fuel (i + (encodeAll routes).length)
        (file ++ fileOf (staticEntries routes))
        (((zeroWidth routes).map Address.text).getD routerIp) := by
  induction routes generalizing i file routerIp with
  | nil => simp [fileOf, staticEntries, zeroWidth, encodeAll]
  | cons r rest ih =>
    have hsplit : encodeAll (r :: rest) = r.encode ++ encodeAll rest := rfl
    rw [hsplit] at h hlen ⊢
    rw [length_append, ← add_assoc] at hlen ⊢
    rw [length_cons, ← add_assoc, fileSaveRouteLoop_route h.left (by omega),
      ih h.right hlen, ih h.right hlen, staticEntries_cons, zeroWidth_cons]
    split
    · simp
    · rw [fileOf_cons]
      simp

theorem routeBranch_some {k : Nat} (h : routeBranch maskwidth i len = some k) :
    maskwidth ≤ 32 ∧ k = (maskwidth + 7) / 8 ∧ i + k + 4 < len := by
  have hk := find?_some h
  have hmem := mem_of_find?_eq_some h
  simp only [decide_eq_true_eq, mem_cons, not_mem_nil, or_false] at hk hmem
  omega

theorem exists_encode_prefix {width : UInt8} {bytes : List UInt8} (hwidth : width.toNat ≤ 32)
    (hlength : (width.toNat + 7) / 8 + 4 ≤ bytes.length) :
    ∃ r : Route, r.encode <+: width :: bytes := by
  have hrouter : 4 ≤ (bytes.drop ((width.toNat + 7) / 8)).length := by
    rw [length_drop]
    omega
  rcases hrest : bytes.drop ((width.toNat + 7) / 8) with
    _ | ⟨a, _ | ⟨b, _ | ⟨c, _ | ⟨d, rest⟩⟩⟩⟩
  iterate 4 · simp [hrest] at hrouter
  refine ⟨⟨width.toNat, bytes.take ((width.toNat + 7) / 8), ⟨a, b, c, d⟩, hwidth, ?_⟩, rest, ?_⟩
  · rw [length_take]
    omega
  · conv_rhs => rw [← take_append_drop ((width.toNat + 7) / 8) bytes, hrest]
    simp [Route.encode, Address.octets]

/-- What is not all of a route ends the loop. -/
private theorem fileSaveRouteLoop_rest {rest : List UInt8} (h : StandsAt option121 i rest)
    (hrest : ∀ r : Route, ¬r.encode <+: rest) (fuel : Nat) (file routerIp : List UInt8) :
    fileSaveRouteLoop option121 (i + rest.length) (fuel + 1) i file routerIp =
      some (file, routerIp) := by
  cases rest with
  | nil => rw [fileSaveRouteLoop, if_neg (by simp)]
  | cons width bytes =>
    have hwidth : option121 i = width := h 0 (Nat.succ_pos _)
    rw [fileSaveRouteLoop, hwidth, if_pos (by simp), length_cons, if_neg]
    · cases hbranch : routeBranch width.toNat i (i + (bytes.length + 1)) with
      | none => rfl
      | some k =>
        obtain ⟨hle, rfl, hlt⟩ := routeBranch_some hbranch
        obtain ⟨r, hr⟩ := exists_encode_prefix hle (by omega : _ ≤ bytes.length)
        exact absurd hr (hrest r)
    · rintro ⟨hzero, hlt⟩
      have hle : width.toNat ≤ 32 := by omega
      obtain ⟨r, hr⟩ := exists_encode_prefix hle (by omega : _ ≤ bytes.length)
      exact hrest r hr

theorem fileSaveRouteLoop_eq (routes : List Route) {rest : List UInt8}
    (hrest : ∀ r : Route, ¬r.encode <+: rest) (routerIp : List UInt8) {fuel : Nat}
    (hfuel : (encodeAll routes ++ rest).length < fuel) :
    fileSaveRouteLoop (CString.buffer (encodeAll routes ++ rest))
      (encodeAll routes ++ rest).length fuel 0 [] routerIp =
      some (fileOf (staticEntries routes),
        ((zeroWidth routes).map Address.text).getD routerIp) := by
  have hstands : StandsAt (CString.buffer (encodeAll routes ++ rest)) 0
      (encodeAll routes ++ rest) := by
    intro d _
    rw [zero_add]
    rfl
  have hroutes : routes.length ≤ (encodeAll routes).length := by
    have hsum := length_le_sum_of_one_le
      (routes.map (fun r => r.encode.length)) (by simp [Route.length_encode])
    rwa [length_map, ← length_flatMap] at hsum
  rw [length_append] at hfuel ⊢
  obtain ⟨left, rfl⟩ : ∃ left, fuel = left + 1 + routes.length :=
    ⟨fuel - 1 - routes.length, by omega⟩
  have hend := fileSaveRouteLoop_rest hstands.right hrest left
  rw [fileSaveRouteLoop_routes hstands.left (by simp)]
  rw [zero_add] at hend ⊢
  rw [hend]
  rfl

theorem saveRoutes_encodeAll (routes : List Route) (routerIp : List UInt8) :
    saveRoutes (encodeAll routes) routerIp =
      some (fileOf (staticEntries routes),
        ((zeroWidth routes).map Address.text).getD routerIp) := by
  have hnone (r : Route) : ¬r.encode <+: [] := by simp [Route.encode]
  simpa [saveRoutes] using fileSaveRouteLoop_eq routes hnone routerIp (Nat.lt_succ_self _)

/-- Every descriptor is a list of routes with a rest that starts with none. -/
private theorem exists_routes (data : List UInt8) :
    ∃ routes rest, data = encodeAll routes ++ rest ∧ ∀ r : Route, ¬r.encode <+: rest := by
  by_cases h : ∃ r : Route, r.encode <+: data
  · obtain ⟨r, after, hdata⟩ := h
    have hshorter : after.length < data.length := by
      rw [← hdata, length_append, r.length_encode]
      omega
    obtain ⟨routes, rest, rfl, hrest⟩ := exists_routes after
    exact ⟨r :: routes, rest, by simp [encodeAll, ← hdata], hrest⟩
  · exact ⟨[], data, rfl, fun r hr => h ⟨r, hr⟩⟩
termination_by data.length

def fileSaveRouteReads (option121 : Nat → UInt8) (len : Nat) : Nat → Nat → List Nat
  | 0, _ => []
  | fuel + 1, i =>
    if i < len then
      if (option121 i).toNat = 0 ∧ i + 4 < len then
        range' i 5 ++ fileSaveRouteReads option121 len fuel (i + 5)
      else
        match routeBranch (option121 i).toNat i len with
        | some k => range' i (k + 5) ++ fileSaveRouteReads option121 len fuel (i + k + 5)
        | none => [i]
    else []

private theorem fileSaveRouteReads_lt (option121 : Nat → UInt8) (len fuel i : Nat) :
    ∀ pos ∈ fileSaveRouteReads option121 len fuel i, pos < len := by
  induction fuel generalizing i with
  | zero => simp [fileSaveRouteReads]
  | succ fuel ih =>
    rw [fileSaveRouteReads]
    split
    · split
      next hzero =>
        refine forall_mem_append.mpr ⟨fun pos hpos => ?_, ih _⟩
        rw [mem_range'_1] at hpos
        omega
      · cases hbranch : routeBranch (option121 i).toNat i len with
        | none => simpa
        | some k =>
          have hlt := (routeBranch_some hbranch).2.2
          refine forall_mem_append.mpr ⟨fun pos hpos => ?_, ih _⟩
          rw [mem_range'_1] at hpos
          omega
    · simp

/-- An entry depends only on the bytes of its route. -/
theorem branchEntry_congr {other : Nat → UInt8} {k : Nat}
    (h : ∀ pos ∈ range' i (k + 5), other pos = option121 pos) :
    branchEntry other i k = branchEntry option121 i k := by
  have hbyte {pos : Nat} (hlo : i ≤ pos) (hhi : pos < i + (k + 5)) : other pos = option121 pos :=
    h pos (mem_range'_1.mpr ⟨hlo, hhi⟩)
  have hdest (j : Nat) : destIp other i k j = destIp option121 i k j := by
    unfold destIp
    split
    · exact hbyte (by omega) (by omega)
    split
    · rw [hbyte (by omega : i ≤ i + 1 + j) (by omega), hbyte le_rfl (by omega)]
    · rfl
  have hgateway (d : Nat) (hd : d < 4) : other (i + k + 1 + d) = option121 (i + k + 1 + d) :=
    hbyte (by omega) (by omega)
  simp only [branchEntry, addressAt, hdest, hbyte le_rfl (by omega : i < i + (k + 5))]
  rw [hgateway 1 (by decide), hgateway 2 (by decide), hgateway 3 (by decide),
    hbyte (by omega : i ≤ i + k + 1) (by omega)]

/-- The loop depends on no byte but those it reads. -/
theorem fileSaveRouteLoop_congr {other : Nat → UInt8} {fuel : Nat} (file routerIp : List UInt8)
    (h : ∀ pos ∈ fileSaveRouteReads option121 len fuel i, other pos = option121 pos) :
    fileSaveRouteLoop other len fuel i file routerIp =
      fileSaveRouteLoop option121 len fuel i file routerIp := by
  induction fuel generalizing i file routerIp with
  | zero => rfl
  | succ fuel ih =>
    rw [fileSaveRouteReads] at h
    rw [fileSaveRouteLoop, fileSaveRouteLoop]
    by_cases hi : i < len
    · rw [if_pos hi] at h
      rw [if_pos hi, if_pos hi]
      by_cases hzero : (option121 i).toNat = 0 ∧ i + 4 < len
      · rw [if_pos hzero] at h
        obtain ⟨hhere, hrest⟩ := forall_mem_append.mp h
        have hbyte (d : Nat) (hd : d < 5) : other (i + d) = option121 (i + d) :=
          hhere _ (mem_range'_1.mpr ⟨Nat.le_add_right i d, by omega⟩)
        have hwidth : other i = option121 i := hbyte 0 (by decide)
        have hrouter : addressAt other (i + 1) = addressAt option121 (i + 1) := by
          simp only [addressAt, add_assoc, hbyte 1 (by decide), hbyte 2 (by decide),
            hbyte 3 (by decide), hbyte 4 (by decide), Nat.reduceAdd]
        rw [hwidth, if_pos hzero, if_pos hzero, hrouter, ih _ _ hrest]
      · rw [if_neg hzero] at h
        cases hbranch : routeBranch (option121 i).toNat i len with
        | none =>
          rw [hbranch] at h
          rw [h i mem_cons_self, if_neg hzero, if_neg hzero, hbranch]
        | some k =>
          rw [hbranch] at h
          obtain ⟨hhere, hrest⟩ := forall_mem_append.mp h
          have hwidth : other i = option121 i :=
            hhere i (mem_range'_1.mpr ⟨le_rfl, by omega⟩)
          rw [hwidth, if_neg hzero, if_neg hzero, hbranch]
          simp only [branchEntry_congr hhere, ih _ _ hrest]
    · rw [if_neg hi, if_neg hi]

/-- Any bytes are complete routes and a rest that does not begin with one. Once the file is open the
loop ends after no more rounds than there are bytes, and one. It reads nothing else, nor does what
it leaves depend on anything else. The client writes a line for each route with a width other than
zero (the destination under the mask, the mask of that many ones, the router), and takes the router
of the last one of width zero. -/
theorem classless_routes_decoded (sessionPath data routerIp : List UInt8) (fopenOk : Bool) :
    (∀ width ≤ 32, (subnetMask width).octets.foldl (fun n o => n * 256 + o.toNat) 0 +
      2 ^ (32 - width) = 2 ^ 32) ∧
    (∀ fuel, ∀ pos ∈ fileSaveRouteReads (CString.buffer data) data.length fuel 0,
      pos < data.length) ∧
    (∀ fuel other, (∀ pos ∈ fileSaveRouteReads (CString.buffer data) data.length fuel 0,
        other pos = CString.buffer data pos) →
      fileSaveRouteLoop other data.length fuel 0 [] routerIp =
        fileSaveRouteLoop (CString.buffer data) data.length fuel 0 [] routerIp) ∧
    ∃ routes rest, data = encodeAll routes ++ rest ∧ (∀ r : Route, ¬r.encode <+: rest) ∧
      (∀ fuel > data.length, fileSaveRouteLoop (CString.buffer data) data.length fuel 0 []
        routerIp = some (fileOf (staticEntries routes),
          ((zeroWidth routes).map Address.text).getD routerIp)) ∧
      fileSaveRoute sessionPath fopenOk data routerIp =
        some (if sessionPath = [] ∨ fopenOk = false then (none, routerIp)
          else (some (fileOf (staticEntries routes)),
            ((zeroWidth routes).map Address.text).getD routerIp)) := by
  obtain ⟨routes, rest, rfl, hrest⟩ := exists_routes data
  have hloop {fuel : Nat} (hfuel : (encodeAll routes ++ rest).length < fuel) :=
    fileSaveRouteLoop_eq routes hrest routerIp hfuel
  refine ⟨by decide, fun fuel => fileSaveRouteReads_lt _ _ fuel _,
    fun fuel other h => fileSaveRouteLoop_congr [] routerIp h,
    routes, rest, rfl, hrest, fun fuel hfuel => hloop hfuel, ?_⟩
  unfold fileSaveRoute
  by_cases hpath : sessionPath = []
  · simp [hpath]
  · cases fopenOk with
    | false => simp
    | true =>
      rw [if_neg hpath, if_pos rfl, saveRoutes, hloop (Nat.lt_succ_self _),
        if_neg (by simp [hpath])]
      rfl

end EchoLife.Dhcp.Client
