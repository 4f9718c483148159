/-
# Depths and nesting

A walk of a file enters every node once, a node before those it encloses and what an earlier
child encloses before what a later child does (`SourceFile.visits_isWalk`). The depth of a
visit is the number of visits to nodes around it. So the depths, one after the other, tell
which nodes enclose which: a node encloses another that is entered later when no depth from
there on is as small as its own (`IsWalk.nesting`).

All of this comes from the addresses of the nodes. In their order an address comes before
those that it is a front part of, and two addresses that part are in the order of the children
where they part (`lt_iff_encloses_or_standsBefore`); and a walk goes through all addresses in this
order.

Key definitions: `Encloses`, `StandsBefore`, `IsWalk`.
Key theorems: `lt_iff_encloses_or_standsBefore`, `Encloses.of_lt_of_le`, `Placing.depth_add_one`,
`Placing.countP_encloses`, `Placing.encloses_iff`, `SourceFile.visits_isWalk`.
-/
import Mathlib.Data.List.Lex
import Mathlib.Data.List.Nodup
import FieldOrder.Proofs.Syntax.Addresses

namespace FieldOrder

/-! ### Addresses inside and behind others -/

/-- The node at the first address encloses the node at the second. -/
def Encloses (a b : List Nat) : Prop := a <+: b ∧ a ≠ b

/-- The addresses part, and the first goes on to an earlier child than the second. -/
def StandsBefore (a b : List Nat) : Prop :=
  ∃ above i j a' b', a = above ++ i :: a' ∧ b = above ++ j :: b' ∧ i < j

instance (a b : List Nat) : Decidable (Encloses a b) :=
  inferInstanceAs (Decidable (a <+: b ∧ a ≠ b))

variable {a b c : List Nat}

theorem Encloses.length_lt (h : Encloses a b) : a.length < b.length :=
  h.1.length_le.lt_of_ne fun hlen => h.2 (h.1.eq_of_length hlen)

/-- What a node encloses is before all that the node is before. -/
theorem StandsBefore.of_prefix (h : StandsBefore a b) (hac : a <+: c) : StandsBefore c b := by
  obtain ⟨above, i, j, a', b', rfl, hb, hij⟩ := h
  obtain ⟨below, rfl⟩ := hac
  exact ⟨above, i, j, a' ++ below, b', by simp, hb, hij⟩

theorem encloses_cons_iff {i j : Nat} : Encloses (i :: a) (j :: b) ↔ i = j ∧ Encloses a b := by
  simp only [Encloses, List.cons_prefix_cons, ne_eq, List.cons.injEq]
  tauto

theorem standsBefore_cons_iff {i j : Nat} :
    StandsBefore (i :: a) (j :: b) ↔ i < j ∨ i = j ∧ StandsBefore a b := by
  constructor
  · rintro ⟨above, k, l, a', b', ha, hb, hkl⟩
    cases above with
    | nil =>
      obtain ⟨rfl, -⟩ := List.cons.inj ha
      obtain ⟨rfl, -⟩ := List.cons.inj hb
      exact .inl hkl
    | cons x above =>
      obtain ⟨hix, ha⟩ := List.cons.inj ha
      obtain ⟨hjx, hb⟩ := List.cons.inj hb
      exact .inr ⟨hix.trans hjx.symm, above, k, l, a', b', ha, hb, hkl⟩
  · rintro (hij | ⟨rfl, above, k, l, a', b', rfl, rfl, hkl⟩)
    · exact ⟨[], i, j, a, b, rfl, rfl, hij⟩
    · exact ⟨i :: above, k, l, a', b', rfl, rfl, hkl⟩

/-- An address comes before another when its node encloses the other or is before it. -/
theorem lt_iff_encloses_or_standsBefore : a < b ↔ Encloses a b ∨ StandsBefore a b := by
  induction a generalizing b with
  | nil =>
    cases b with
    | nil => simp [Encloses, StandsBefore]
    | cons j b => simp [Encloses]
  | cons i a ih =>
    cases b with
    | nil => simp [Encloses, StandsBefore]
    | cons j b =>
      rw [List.cons_lt_cons_iff, ih, encloses_cons_iff, standsBefore_cons_iff]
      tauto

theorem not_lt_of_prefix (h : a <+: b) : ¬ b < a := by
  intro hlt
  by_cases hab : a = b
  · exact lt_irrefl b (hab ▸ hlt)
  · exact lt_asymm hlt (lt_iff_encloses_or_standsBefore.mpr (.inl ⟨h, hab⟩))

/-- What comes between a node and something inside it is inside it. -/
theorem Encloses.of_lt_of_le (h : Encloses a c) (hab : a < b) (hbc : b ≤ c) : Encloses a b := by
  rcases lt_iff_encloses_or_standsBefore.mp hab with hab | hab
  · exact hab
  · have hcb : c < b := lt_iff_encloses_or_standsBefore.mpr (.inr (hab.of_prefix h.1))
    exact absurd hbc (not_le_of_gt hcb)

/-! ### Places of visits -/

theorem depth_of_visitAt? : ∀ {a : List Nat} {trail ns : List Node} {v : Visit},
    visitAt? trail ns a = some v → v.depth + 1 = trail.length + a.length
  | [], _, _, _, h => by cases h
  | [i], trail, ns, v, h => by
    obtain ⟨n, -, rfl⟩ := Option.map_eq_some_iff.mp h
    rfl
  | i :: j :: a, trail, ns, v, h => by
    obtain ⟨n, -, hv⟩ := Option.bind_eq_some_iff.mp h
    have hdepth := depth_of_visitAt? hv
    simp only [List.length_cons] at hdepth ⊢
    omega

/-- Above the address of a visit there are visits too. -/
theorem exists_visitAt?_of_prefix : ∀ {a b : List Nat} {trail ns : List Node} {v : Visit},
    visitAt? trail ns a = some v → b <+: a → b ≠ [] → ∃ w, visitAt? trail ns b = some w
  | _, [], _, _, _, _, _, hb => absurd rfl hb
  | [], k :: b, _, _, _, _, hba, _ => absurd hba (by simp)
  | [i], k :: b, trail, ns, v, h, hba, _ => by
    obtain ⟨rfl, hb⟩ := List.cons_prefix_cons.mp hba
    obtain rfl := List.prefix_nil.mp hb
    exact ⟨v, h⟩
  | i :: j :: a, [k], trail, ns, v, h, hba, _ => by
    obtain ⟨rfl, -⟩ := List.cons_prefix_cons.mp hba
    obtain ⟨n, hn, -⟩ := Option.bind_eq_some_iff.mp h
    exact ⟨⟨trail, n⟩, by rw [visitAt?, hn, Option.map_some]⟩
  | i :: j :: a, k :: l :: b, trail, ns, v, h, hba, _ => by
    obtain ⟨rfl, hb⟩ := List.cons_prefix_cons.mp hba
    obtain ⟨n, hn, hv⟩ := Option.bind_eq_some_iff.mp h
    obtain ⟨w, hw⟩ := exists_visitAt?_of_prefix hv hb (List.cons_ne_nil l b)
    exact ⟨w, by rw [visitAt?, hn, Option.bind_some, hw]⟩

/-- The visits that a walk makes with their addresses, in the order of the addresses. -/
structure Placing (trees : List Node) (placed : List (List Nat × Visit)) : Prop where
  sorted : placed.Pairwise fun p q => p.1 < q.1
  mem_iff : ∀ a v, (a, v) ∈ placed ↔ visitAt? [] trees a = some v

namespace Placing

variable {trees : List Node} {placed : List (List Nat × Visit)} (h : Placing trees placed)

include h

theorem depth_add_one {p : List Nat × Visit} (hp : p ∈ placed) : p.2.depth + 1 = p.1.length := by
  rw [depth_of_visitAt? ((h.mem_iff p.1 p.2).mp hp), List.length_nil, Nat.zero_add]

theorem depth_lt {p q : List Nat × Visit} (hp : p ∈ placed) (hq : q ∈ placed)
    (hpq : Encloses p.1 q.1) : p.2.depth < q.2.depth := by
  have hp := h.depth_add_one hp
  have hq := h.depth_add_one hq
  have := hpq.length_lt
  omega

/-- Above an address in the list there are others in it. -/
theorem exists_of_prefix {p : List Nat × Visit} (hp : p ∈ placed) (hb : b <+: p.1) (hne : b ≠ []) :
    ∃ w, (b, w) ∈ placed := by
  obtain ⟨w, hw⟩ := exists_visitAt?_of_prefix ((h.mem_iff p.1 p.2).mp hp) hb hne
  exact ⟨w, (h.mem_iff b w).mpr hw⟩

theorem nodup_addresses : (placed.map Prod.fst).Nodup :=
  List.pairwise_map.mpr (h.sorted.imp fun hlt => ne_of_lt hlt)

/-- The places of the list are in the order of the addresses. -/
theorem lt_iff {i j : Nat} (hi : i < placed.length) (hj : j < placed.length) :
    i < j ↔ placed[i].1 < placed[j].1 := by
  have hsorted := List.pairwise_iff_getElem.mp h.sorted
  refine ⟨hsorted i j hi hj, fun hlt => ?_⟩
  rcases Nat.lt_trichotomy i j with hij | rfl | hji
  · exact hij
  · exact absurd hlt (lt_irrefl _)
  · exact absurd hlt (lt_asymm (hsorted j i hj hi hji))

theorem le_of_le {i j : Nat} (hi : i < placed.length) (hj : j < placed.length) (hij : i ≤ j) :
    placed[i].1 ≤ placed[j].1 := by
  rcases Nat.lt_or_eq_of_le hij with hij | rfl
  · exact le_of_lt ((h.lt_iff hi hj).mp hij)
  · exact le_refl _

/-- As many visits are to nodes around a node as its address is long, less one. -/
theorem countP_encloses {p : List Nat × Visit} (hp : p ∈ placed) :
    placed.countP (fun q => Encloses q.1 p.1) = p.2.depth := by
  have hmem : ∀ b, b ∈ (placed.map Prod.fst).filter (fun b => Encloses b p.1) ↔
      b ∈ (List.range p.2.depth).map fun k => p.1.take (k + 1) := by
    intro b
    rw [List.mem_filter, decide_eq_true_iff, List.mem_map, List.mem_map]
    have hlen := h.depth_add_one hp
    constructor
    · rintro ⟨⟨q, hq, rfl⟩, hqp⟩
      have hqlen := h.depth_add_one hq
      have hlt := hqp.length_lt
      refine ⟨q.2.depth, List.mem_range.mpr (by omega), ?_⟩
      rw [hqlen]
      exact (List.prefix_iff_eq_take.mp hqp.1).symm
    · rintro ⟨k, hk, rfl⟩
      have hk := List.mem_range.mp hk
      have htake : p.1.take (k + 1) <+: p.1 := List.take_prefix (k + 1) p.1
      have hlength : (p.1.take (k + 1)).length = k + 1 := List.length_take_of_le (by omega)
      obtain ⟨w, hw⟩ := h.exists_of_prefix hp htake (List.ne_nil_of_length_pos (by omega))
      refine ⟨⟨_, hw, rfl⟩, htake, fun heq => ?_⟩
      rw [heq] at hlength
      omega
  have hnodup : ((List.range p.2.depth).map fun k => p.1.take (k + 1)).Nodup := by
    refine List.Nodup.map_on (fun k hk l hl heq => ?_) List.nodup_range
    have hlen := h.depth_add_one hp
    have hk := List.mem_range.mp hk
    have hl := List.mem_range.mp hl
    have hlength := congrArg List.length heq
    rw [List.length_take_of_le (by omega), List.length_take_of_le (by omega)] at hlength
    omega
  have hperm := (List.perm_ext_iff_of_nodup (h.nodup_addresses.filter _) hnodup).mpr hmem
  rw [show (fun q : List Nat × Visit => decide (Encloses q.1 p.1)) =
    (fun b => decide (Encloses b p.1)) ∘ Prod.fst from rfl, ← List.countP_map,
    List.countP_eq_length_filter, hperm.length_eq, List.length_map, List.length_range]

/-- A node encloses those that are entered behind it, as long as the depth stays greater. -/
theorem encloses_iff {i j : Nat} (hi : i < placed.length) (hj : j < placed.length) :
    Encloses placed[i].1 placed[j].1 ↔ i < j ∧ ∀ k (hk : k < placed.length), i < k → k ≤ j →
      placed[i].2.depth < placed[k].2.depth := by
  constructor
  · intro hij
    refine ⟨(h.lt_iff hi hj).mpr (lt_iff_encloses_or_standsBefore.mpr (.inl hij)), ?_⟩
    intro k hk hik hkj
    refine h.depth_lt (List.getElem_mem hi) (List.getElem_mem hk) ?_
    exact hij.of_lt_of_le ((h.lt_iff hi hk).mp hik) (h.le_of_le hk hj hkj)
  · rintro ⟨hij, hdepth⟩
    rcases lt_iff_encloses_or_standsBefore.mp ((h.lt_iff hi hj).mp hij) with hencl | hbefore
    · exact hencl
    -- otherwise the child at which they part lies between, and is no deeper than the first
    obtain ⟨above, x, y, a', b', ha, hb, hxy⟩ := hbefore
    have hprefix : above ++ [y] <+: placed[j].1 := ⟨b', by simp [hb]⟩
    obtain ⟨w, hw⟩ := h.exists_of_prefix (List.getElem_mem hj) hprefix (by simp)
    obtain ⟨k, hk, hkw⟩ := List.mem_iff_getElem.mp hw
    have hparts : StandsBefore placed[i].1 placed[k].1 := by
      rw [hkw]
      exact ⟨above, x, y, a', [], ha, rfl, hxy⟩
    have hik : i < k := (h.lt_iff hi hk).mpr (lt_iff_encloses_or_standsBefore.mpr (.inr hparts))
    have hkj : k ≤ j := by
      by_contra hjk
      have hlt := (h.lt_iff hj hk).mp (Nat.lt_of_not_le hjk)
      rw [hkw] at hlt
      exact not_lt_of_prefix hprefix hlt
    have hlt := hdepth k hk hik hkj
    have hdi := h.depth_add_one (List.getElem_mem hi)
    have hdk := h.depth_add_one hw
    rw [hkw] at hlt
    simp only [ha, List.length_append, List.length_cons, List.length_nil] at hlt hdk hdi
    omega

/-- Around a node that is not at depth 0 there is one a step less deep. -/
theorem exists_parent {j : Nat} (hj : j < placed.length) (hdepth : 0 < placed[j].2.depth) :
    ∃ k, ∃ hk : k < placed.length, Encloses placed[k].1 placed[j].1 ∧
      placed[k].2.depth + 1 = placed[j].2.depth := by
  have hmem := List.getElem_mem hj
  have hlen := h.depth_add_one hmem
  have hdrop : placed[j].1.dropLast.length = placed[j].1.length - 1 := List.length_dropLast
  obtain ⟨w, hw⟩ := h.exists_of_prefix hmem (List.dropLast_prefix _)
    (List.ne_nil_of_length_pos (by omega))
  obtain ⟨k, hk, hkw⟩ := List.mem_iff_getElem.mp hw
  have hdk := h.depth_add_one hw
  rw [hdrop] at hdk
  refine ⟨k, hk, ?_, ?_⟩
  · rw [hkw]
    refine ⟨List.dropLast_prefix _, fun heq => ?_⟩
    have hsame : placed[j].1.dropLast.length = placed[j].1.length := congrArg List.length heq
    omega
  · rw [hkw]
    dsimp only at hdk ⊢
    omega

theorem depth_head? {p : List Nat × Visit} (hp : p ∈ placed.head?) : p.2.depth = 0 := by
  rw [List.head?_eq_getElem?, Option.mem_def, List.getElem?_eq_some_iff] at hp
  obtain ⟨hpos, rfl⟩ := hp
  by_contra hdepth
  obtain ⟨k, hk, hencl, -⟩ := h.exists_parent hpos (Nat.pos_of_ne_zero hdepth)
  exact absurd ((h.encloses_iff hk hpos).mp hencl).1 (Nat.not_lt_zero k)

/-- The depth rises by one at most: what is entered next stands in the node just entered, or
behind it in one around it. -/
theorem isChain_depth : placed.IsChain fun p q => q.2.depth ≤ p.2.depth + 1 := by
  rw [List.isChain_iff_getElem]
  intro i hi
  by_contra hrise
  obtain ⟨k, hk, hencl, hparent⟩ := h.exists_parent hi (by omega)
  obtain ⟨hki, hbetween⟩ := (h.encloses_iff hk hi).mp hencl
  rcases Nat.lt_or_eq_of_le (Nat.le_of_lt_succ hki) with hki | rfl
  · have := hbetween i (Nat.lt_of_succ_lt hi) hki (Nat.le_succ i)
    omega
  · omega

end Placing

/-! ### Walks -/

/-- The visits, each with the address of its node, are a walk of trees in a row. -/
structure IsWalk (trees : List Node) (placed : List (List Nat × Visit)) : Prop where
  /-- Every node is entered, and nothing else is. -/
  reaches : ∀ a n, nodeAt? trees a = some n ↔ ∃ v, (a, v) ∈ placed ∧ v.node = n
  /-- No node is entered twice. -/
  once : (placed.map Prod.fst).Nodup
  /-- A node is entered before those it encloses, and what an earlier child encloses before
  what a later one does. -/
  preorder : ∀ i j (hi : i < placed.length) (hj : j < placed.length),
    i < j ↔ Encloses placed[i].1 placed[j].1 ∨ StandsBefore placed[i].1 placed[j].1
  /-- The depth is the number of visits to nodes around the one visited. -/
  depth : ∀ p ∈ placed, p.2.depth = placed.countP fun q => Encloses q.1 p.1
  starts : ∀ p ∈ placed.head?, p.2.depth = 0
  steps : placed.IsChain fun p q => q.2.depth ≤ p.2.depth + 1
  /-- The depths tell which nodes enclose which. -/
  nesting : ∀ i j (hi : i < placed.length) (hj : j < placed.length),
    Encloses placed[i].1 placed[j].1 ↔ i < j ∧ ∀ k (hk : k < placed.length), i < k → k ≤ j →
      placed[i].2.depth < placed[k].2.depth

theorem Placing.isWalk {trees : List Node} {placed : List (List Nat × Visit)}
    (h : Placing trees placed) : IsWalk trees placed where
  reaches a n := by
    rw [nodeAt?_eq_some_iff []]
    exact exists_congr fun v => and_congr_left fun _ => (h.mem_iff a v).symm
  once := h.nodup_addresses
  preorder _ _ hi hj := (h.lt_iff hi hj).trans lt_iff_encloses_or_standsBefore
  depth _ hp := (h.countP_encloses hp).symm
  starts _ hp := h.depth_head? hp
  steps := h.isChain_depth
  nesting _ _ hi hj := h.encloses_iff hi hj

/-- **A walk reaches every node once.** The visits of a file are those of a walk of its trees,
the statements of function bodies and the values of variables of the package. -/
theorem SourceFile.visits_isWalk (f : SourceFile) :
    ∃ placed, placed.map Prod.snd = f.visits ∧ IsWalk f.trees placed := by
  obtain ⟨placed, hsorted, hmem, hvisits⟩ := inPreorder_visits [] f.trees
  rw [← f.visits_eq] at hvisits
  have hplacing : Placing f.trees placed := ⟨hsorted, hmem⟩
  exact ⟨placed, hvisits, hplacing.isWalk⟩

end FieldOrder
