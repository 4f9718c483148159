/-
# Records, written and read

What a record, a value with a kind or a list is read as after it was written. A
type is read back up to a depth (`Json.ReadsUpTo`) when every value of it that is
nested at most that deep is written plainly and read as itself; the fields of a
record, the items of a list and a value that may be missing keep this.

Key definitions: `Json.depth`, `Json.ReadsUpTo`.
Key theorems: `Json.record?_obj`, `Json.tagged?_ofTagged`, `Json.ReadsUpTo.list`,
`Json.ReadsUpTo.option`, `Json.fits_of_isPlain`.
-/
import FieldOrder.Json.Record
import FieldOrder.Proofs.Json.Spelling

namespace FieldOrder
namespace Json

variable {α : Type}

/-! ### Depth -/

mutual

/-- How deep arrays and objects are nested in a value. -/
def depth : Json → Nat
  | arr items => deepest items + 1
  | obj members => deepestMember members + 1
  | _ => 0

/-- How deep the deepest of some items is. -/
def deepest : List Json → Nat
  | [] => 0
  | v :: rest => max v.depth (deepest rest)

/-- How deep the deepest value of some members is. -/
def deepestMember : List (String × Json) → Nat
  | [] => 0
  | (_, v) :: rest => max v.depth (deepestMember rest)

end

theorem deepest_le {vs : List Json} {n : Nat} : deepest vs ≤ n ↔ ∀ v ∈ vs, v.depth ≤ n := by
  induction vs with
  | nil => simp [deepest]
  | cons v vs ih => rw [deepest, Nat.max_le, ih, List.forall_mem_cons]

theorem deepestMember_le {ms : List (String × Json)} {n : Nat} :
    deepestMember ms ≤ n ↔ ∀ m ∈ ms, m.2.depth ≤ n := by
  induction ms with
  | nil => simp [deepestMember]
  | cons m ms ih => rw [deepestMember, Nat.max_le, ih, List.forall_mem_cons]

@[simp] theorem depth_obj_le_succ {ms : List (String × Json)} {n : Nat} :
    (obj ms).depth ≤ n + 1 ↔ ∀ m ∈ ms, m.2.depth ≤ n := by
  rw [depth, Nat.add_le_add_iff_right, deepestMember_le]

@[simp] theorem depth_obj_ne_zero (ms : List (String × Json)) : (obj ms).depth ≠ 0 := by
  simp [depth]

@[simp] theorem depth_str (text : String) : (str text).depth = 0 := rfl

@[simp] theorem depth_bool (b : Bool) : (bool b).depth = 0 := rfl

@[simp] theorem depth_ofOption_str (o : Option String) : (ofOption str o).depth = 0 := by
  cases o <;> rfl

theorem depth_arr_le {vs : List Json} {n : Nat} (h : (arr vs).depth ≤ n) :
    0 < n ∧ ∀ v ∈ vs, v.depth ≤ n - 1 := by
  have hdeepest : deepest vs + 1 ≤ n := h
  exact ⟨by omega, deepest_le.mp (by omega)⟩

@[simp] theorem depth_ofTagged_le_succ {kind : String} {fields : List (String × Json)} {n : Nat} :
    (ofTagged kind fields).depth ≤ n + 1 ↔ ∀ f ∈ fields, f.2.depth ≤ n := by
  rw [ofTagged, depth_obj_le_succ, List.forall_mem_cons]
  exact ⟨And.right, fun h => ⟨Nat.zero_le n, h⟩⟩

theorem depth_ofTagged (kind : String) (fields : List (String × Json)) :
    (ofTagged kind fields).depth = (obj fields).depth := by
  simp [ofTagged, depth, deepestMember]

@[simp] theorem depth_ofTagged_ne_zero (kind : String) (fields : List (String × Json)) :
    (ofTagged kind fields).depth ≠ 0 := depth_obj_ne_zero _

/-! ### Plain values -/

theorem allPlain_eq (vs : List Json) : allPlain vs = vs.all isPlain := by
  induction vs with
  | nil => rfl
  | cons v vs ih => rw [allPlain, ih, List.all_cons]

theorem membersPlain_eq (ms : List (String × Json)) :
    membersPlain ms = ms.all fun m => m.2.isPlain := by
  induction ms with
  | nil => rfl
  | cons m ms ih => rw [membersPlain, ih, List.all_cons]

theorem isPlain_arr (vs : List Json) : (arr vs).isPlain = vs.all isPlain :=
  allPlain_eq vs

@[simp] theorem isPlain_obj (ms : List (String × Json)) :
    (obj ms).isPlain = ms.all fun m => m.2.isPlain := membersPlain_eq ms

@[simp] theorem isPlain_ofTagged (kind : String) (fields : List (String × Json)) :
    (ofTagged kind fields).isPlain = fields.all fun f => f.2.isPlain := by
  simp [ofTagged, isPlain]

@[simp] theorem isPlain_str (text : String) : (str text).isPlain = true := rfl

@[simp] theorem isPlain_bool (b : Bool) : (bool b).isPlain = true := rfl

@[simp] theorem isPlain_null : null.isPlain = true := rfl

@[simp] theorem isPlain_ofWord (w : UInt32) : (ofWord w).isPlain = true := by
  have hw : w.toNat < Nat.pow 2 32 := w.toNat_lt
  exact decide_eq_true (Nat.lt_trans hw (Nat.pow_lt_pow_right (by decide) (by decide)))

@[simp] theorem isPlain_ofStrings (texts : List String) : (ofStrings texts).isPlain = true := by
  simp [ofStrings, isPlain_arr]

mutual

/-- A plain value that is not nested too deep fits. -/
theorem fits_of_isPlain : ∀ {v : Json} {n : Nat}, v.isPlain = true → v.depth ≤ n →
    v.fits n = true
  | .null, _, _, _ => rfl
  | .bool _, _, _, _ => rfl
  | .nat _, _, _, _ => rfl
  | .str _, _, _, _ => rfl
  | .arr vs, n, h, hn => by
    have hdeepest : deepest vs + 1 ≤ n := hn
    have hplain : allPlain vs = true := h
    have hfit : allFit (n - 1) vs = true := allFit_of_allPlain hplain (by omega)
    simp [fits, hfit]
    omega
  | .obj ms, n, h, hn => by
    have hdeepest : deepestMember ms + 1 ≤ n := hn
    have hplain : membersPlain ms = true := h
    have hfit : membersFit (n - 1) ms = true := membersFit_of_membersPlain hplain (by omega)
    simp [fits, hfit]
    omega

theorem allFit_of_allPlain : ∀ {vs : List Json} {n : Nat}, allPlain vs = true → deepest vs ≤ n →
    allFit n vs = true
  | [], _, _, _ => rfl
  | v :: vs, n, h, hn => by
    obtain ⟨hv, hvs⟩ := Bool.and_eq_true_iff.mp h
    obtain ⟨hvn, hvsn⟩ := Nat.max_le.mp hn
    simp [allFit, fits_of_isPlain hv hvn, allFit_of_allPlain hvs hvsn]

theorem membersFit_of_membersPlain : ∀ {ms : List (String × Json)} {n : Nat},
    membersPlain ms = true → deepestMember ms ≤ n → membersFit n ms = true
  | [], _, _, _ => rfl
  | (_, v) :: ms, n, h, hn => by
    obtain ⟨hv, hms⟩ := Bool.and_eq_true_iff.mp h
    obtain ⟨hvn, hmsn⟩ := Nat.max_le.mp hn
    simp [membersFit, fits_of_isPlain hv hvn, membersFit_of_membersPlain hms hmsn]

end

theorem fits_ofTagged {kind : String} {fields : List (String × Json)} {n : Nat}
    (hplain : (obj fields).isPlain = true) (hn : (obj fields).depth ≤ n) :
    (ofTagged kind fields).fits n = true := by
  have htagged : (ofTagged kind fields).isPlain = true := by simpa using hplain
  exact fits_of_isPlain htagged (by rwa [depth_ofTagged])

/-! ### Records -/

/-- The members of the fields that have a value. -/
def present (fields : List (String × Option Json)) : List (String × Json) :=
  fields.filterMap fun f => f.2.map (f.1, ·)

theorem filter_present {name : String} {o : Option Json} {fields : List (String × Option Json)}
    (hmem : (name, o) ∈ fields) (hnodup : (fields.map Prod.fst).Nodup) :
    (present fields).filter (·.1 == name) = (o.map (name, ·)).toList := by
  have hfst : ∀ fs : List (String × Option Json), name ∉ fs.map Prod.fst →
      (present fs).filter (·.1 == name) = [] := by
    intro fs hfs
    rw [List.filter_eq_nil_iff]
    intro m hm heq
    obtain ⟨f, hf, hfm⟩ := List.mem_filterMap.mp hm
    obtain ⟨v, -, rfl⟩ := Option.map_eq_some_iff.mp hfm
    exact hfs (List.mem_map.mpr ⟨f, hf, by simpa using heq⟩)
  induction fields with
  | nil => cases hmem
  | cons f fields ih =>
    obtain ⟨hf, hnodup⟩ := List.nodup_cons.mp hnodup
    have hsplit : present (f :: fields) = (f.2.map (f.1, ·)).toList ++ present fields := by
      cases hv : f.2 <;> simp [present, hv]
    rw [hsplit, List.filter_append]
    rcases List.mem_cons.mp hmem with rfl | hmem
    · rw [hfst fields hf, List.append_nil]
      cases o <;> simp
    · have hne : f.1 ≠ name := fun heq => hf (List.mem_map.mpr ⟨_, hmem, heq.symm⟩)
      rw [ih hmem hnodup]
      cases hv : f.2 <;> simp [hne]

theorem member?_present {name : String} {o : Option Json} {fields : List (String × Option Json)}
    (hmem : (name, o) ∈ fields) (hnodup : (fields.map Prod.fst).Nodup) :
    member? name (present fields) = some o := by
  rw [member?, filter_present hmem hnodup]
  cases o <;> rfl

/-- A record written as an object without the fields that have no value gives each
field its value, if it has one. -/
theorem record?_present {names : List String} {fields : List (String × Option Json)}
    (hnames : fields.map Prod.fst = names) (hnodup : names.Nodup) :
    (obj (present fields)).record? names = some (fields.map Prod.snd) := by
  subst hnames
  have h : ∀ fs : List (String × Option Json), (∀ f ∈ fs, f ∈ fields) →
      (fs.map Prod.fst).mapM (member? · (present fields)) = some (fs.map Prod.snd) := by
    intro fs
    induction fs with
    | nil => exact fun _ => rfl
    | cons f fs ih =>
      intro hfs
      obtain ⟨hf, hfs⟩ := List.forall_mem_cons.mp hfs
      simp [List.mapM_cons, member?_present hf hnodup, ih hfs]
  exact h fields fun f hf => hf

theorem present_map_some (fields : List (String × Json)) :
    present (fields.map fun f => (f.1, some f.2)) = fields := by
  rw [present, List.filterMap_map]
  exact List.filterMap_some

/-- A record written as an object gives each field its value. -/
@[simp] theorem record?_obj {names : List String} {fields : List (String × Json)}
    (hnames : fields.map Prod.fst = names) (hnodup : names.Nodup) :
    (obj fields).record? names = some (fields.map fun f => some f.2) := by
  have hsome : (fields.map fun f => (f.1, some f.2)).map Prod.fst = names := by
    rw [List.map_map]
    exact hnames
  have hrecord := record?_present hsome hnodup
  rw [present_map_some, List.map_map] at hrecord
  exact hrecord

/-- A value with a kind gives its kind and the record of its fields. -/
@[simp] theorem tagged?_ofTagged (kinds : List String) (kind : String)
    {fields : List (String × Json)} (h : "kind" ∉ fields.map Prod.fst) :
    (ofTagged kind fields).tagged? kinds = some (kind, obj fields) := by
  have hfilter : fields.filter (·.1 == "kind") = [] := by
    rw [List.filter_eq_nil_iff]
    intro f hf heq
    exact h (List.mem_map.mpr ⟨f, hf, by simpa using heq⟩)
  have hrest : fields.filter (·.1 != "kind") = fields := by
    rw [List.filter_eq_self]
    intro f hf
    rw [bne_iff_ne]
    exact fun heq => h (List.mem_map.mpr ⟨f, hf, heq⟩)
  simp [ofTagged, tagged?, member?, hfilter, hrest, kind?]

/-- The rest of a reader goes on with the kind and its fields. -/
@[simp ↓] theorem tagged?_ofTagged_bind {β : Type} (kinds : List String) (kind : String)
    {fields : List (String × Json)} (h : "kind" ∉ fields.map Prod.fst)
    (f : String × Json → Option β) :
    (ofTagged kind fields).tagged? kinds >>= f = f (kind, obj fields) := by
  rw [tagged?_ofTagged kinds kind h, Option.bind_eq_bind, Option.bind_some]

/-! ### Fields -/

@[simp] theorem text?_str (text : String) : (str text).text? = some text := rfl

@[simp] theorem bool?_bool (b : Bool) : (bool b).bool? = some b := rfl

@[simp] theorem word?_ofWord (w : UInt32) : (ofWord w).word? = some w := by
  have hw : w.toNat < UInt32.size := w.toNat_lt
  simp [word?, ofWord, hw]

@[simp] theorem required_some (read : Json → Option α) (v : Json) :
    required read (some v) = read v := rfl

@[simp] theorem optional_some (default : α) (read : Json → Option α) (v : Json) :
    optional default read (some v) = read v := rfl

/-! ### Reading back -/

/-- Every value that is nested at most `n` deep when it is written by `write` is
written plainly, and read by `read` as what it was. -/
def ReadsUpTo (n : Nat) (write : α → Json) (read : Json → Option α) : Prop :=
  ∀ a, (write a).depth ≤ n → (write a).isPlain = true ∧ read (write a) = some a

theorem ReadsUpTo.mono {write : α → Json} {read : Json → Option α} {m n : Nat}
    (h : ReadsUpTo n write read) (hmn : m ≤ n) : ReadsUpTo m write read :=
  fun a ha => h a (Nat.le_trans ha hmn)

theorem readsUpTo_text (n : Nat) : ReadsUpTo n str text? := fun _ _ => ⟨rfl, rfl⟩

/-- Lists are read back when their items are, one level further up. -/
theorem ReadsUpTo.list {write : α → Json} {read : Json → Option α} {n : Nat}
    (h : ReadsUpTo (n - 1) write read) :
    ReadsUpTo n (fun as => arr (as.map write)) (list? read) := by
  intro as has
  obtain ⟨-, hitems⟩ := depth_arr_le has
  rw [List.forall_mem_map] at hitems
  constructor
  · simp only [isPlain_arr, List.all_map, List.all_eq_true]
    exact fun a ha => (h a (hitems a ha)).1
  · show (as.map write).mapM read = some as
    clear has
    induction as with
    | nil => rfl
    | cons a as ih =>
      obtain ⟨ha, has⟩ := List.forall_mem_cons.mp hitems
      simp [List.mapM_cons, (h a ha).2, ih has]

theorem ReadsUpTo.items {write : α → Json} {read : Json → Option α} {n : Nat}
    (h : ReadsUpTo n write read) :
    ReadsUpTo n (fun as => arr (as.map write)) (list? read) :=
  (h.mono (Nat.sub_le n 1)).list

/-- Values that may be missing are read back when the values are, and none of them
is written as nothing. -/
theorem ReadsUpTo.option {write : α → Json} {read : Json → Option α} {n : Nat}
    (h : ReadsUpTo n write read) (hnull : ∀ a, write a ≠ null) :
    ReadsUpTo n (ofOption write) (fun v => nullable read (some v)) := by
  intro o ho
  cases o with
  | none => exact ⟨rfl, rfl⟩
  | some a =>
    obtain ⟨hplain, hread⟩ := h a ho
    refine ⟨hplain, ?_⟩
    show nullable read (some (write a)) = some (some a)
    unfold nullable
    split
    · next heq => cases heq
    · next heq => exact absurd (Option.some.inj heq) (hnull a)
    · next v _ heq =>
      obtain rfl := Option.some.inj heq
      rw [hread]
      rfl

theorem readsUpTo_ofStrings (n : Nat) : ReadsUpTo n ofStrings (list? text?) :=
  (readsUpTo_text (n - 1)).list

@[simp] theorem isPlain_ofOption_str (o : Option String) : (ofOption str o).isPlain = true := by
  cases o <;> rfl

@[simp] theorem nullable_text? (o : Option String) :
    nullable text? (some (ofOption str o)) = some o := by
  cases o <;> rfl

@[simp] theorem list?_text?_ofStrings (texts : List String) :
    list? text? (ofStrings texts) = some texts :=
  (readsUpTo_ofStrings _ texts (Nat.le_refl _)).2

end Json
end FieldOrder
