import StableOrdinals.Block.Notation
import StableOrdinals.Workload

/-!
# Workloads in block notation

Block notation keeps every workload: `Block.keeps`.
-/

namespace StableOrdinals.Block

theorem ofList_toList (annotations : Annotations) :
    Std.ExtTreeMap.ofList annotations.toList = annotations := by
  apply Std.ExtTreeMap.ext_getElem?
  intro k
  cases h : annotations[k]? with
  | some v =>
    exact Std.ExtTreeMap.getElem?_ofList_of_mem Std.ReflCmp.compare_self
      Std.ExtTreeMap.distinct_keys_toList (Std.ExtTreeMap.mem_toList_iff_getElem?_eq_some.2 h)
  | none =>
    apply Std.ExtTreeMap.getElem?_ofList_of_contains_eq_false
    rw [← Bool.not_eq_true, List.contains_iff_mem, Std.ExtTreeMap.map_fst_toList_eq_keys,
      Std.ExtTreeMap.mem_keys]
    intro hk
    rw [Std.ExtTreeMap.getElem?_eq_some_getElem hk] at h
    cases h

theorem annotationsOf_map (pairs : List (Text × Text)) :
    Workload.annotationsOf (pairs.map fun p => (.ok p.1, some p.2)) =
      .ok (Std.ExtTreeMap.ofList pairs) := by
  have hmap : (pairs.map fun p => ((.ok p.1, some p.2) : Except Text Text × Option Text)).mapM
      Workload.annotationOf = .ok pairs := by
    induction pairs with
    | nil => rfl
    | cons p pairs ih =>
      rw [List.map_cons, List.mapM_cons, ih]
      rfl
  rw [Workload.annotationsOf, hmap]
  rfl

theorem entriesAt_texts (key : Text) (annotations : Annotations) :
    ∃ node, entriesAt 0 (itemLines key (.texts annotations.toList)) = [(key, node)] ∧
      Workload.bagOf (some node.view) = .ok (some annotations) := by
  unfold itemLines
  dsimp only
  split
  · rename_i h
    refine ⟨.mapping [], rfl, ?_⟩
    rw [Std.ExtTreeMap.toList_eq_nil_iff] at h
    rw [h]
    rfl
  · rename_i hne
    refine ⟨.mapping (annotations.toList.map fun p => ⟨2, p.1, .scalar p.2⟩), ?_, ?_⟩
    · have hall : (annotations.toList.map fun p =>
          (⟨2, p.1, .scalar p.2⟩ : Line)).takeWhile (0 < ·.indent)
            = annotations.toList.map fun p => ⟨2, p.1, .scalar p.2⟩ := by
        rw [← List.append_nil (List.map _ _), List.takeWhile_append_of_pos, List.takeWhile_nil]
        intro line hl
        obtain ⟨p, -, rfl⟩ := List.mem_map.1 hl
        rfl
      rw [entriesAt, if_pos rfl, entriesAt_of_forall_ne, hall]
      · simp [Value.node, hne]
      · intro line hl
        obtain ⟨p, -, rfl⟩ := List.mem_map.1 hl
        simp
    · have hentries :
          (Node.mapping (annotations.toList.map fun p => ⟨2, p.1, .scalar p.2⟩)).entries? =
            some (annotations.toList.map fun p => (.ok p.1, some p.2)) := by
        simp [Node.entries?, entries_scalars, Function.comp_def, Node.text?]
      simp only [Workload.bagOf, Option.bind_some, Node.view, hentries, annotationsOf_map, Except.map,
        ofList_toList]

def workloadLines (w : Workload) : List Line :=
  w.fields.flatMap fun (key, item) => itemLines key item

theorem ofDocument_view (name : Text) (w : Workload) :
    Workload.ofDocument name (view (workloadLines w)) = .ok w := by
  obtain ⟨ownName, replicas, version, annotations⟩ := w
  have hbag : Workload.bagOf
      ((find? (workloadLines ⟨ownName, replicas, version, annotations⟩) "annotations").map
        Node.view) = .ok annotations := by
    cases annotations with
    | none => rfl
    | some annotations =>
      obtain ⟨node, hentries, hnode⟩ := entriesAt_texts "annotations" annotations
      change Workload.bagOf (Option.map Node.view
        ((entriesAt 0 (itemLines "annotations" (.texts annotations.toList) ++ [])).lookup _)) = _
      rw [List.append_nil, hentries, ← hnode]
      rfl
  simp only [Workload.ofDocument, view, bind, Except.bind, hbag]
  change Except.ok (Workload.mk ownName ((Text.toInt32? (Text.ofInt replicas.toInt)).getD 0)
    ((Text.toUInt64? (Text.ofNat version.toNat)).getD 0) annotations) = _
  rw [Text.toInt32?_ofInt, Text.toUInt64?_ofNat]
  rfl

theorem render_eq (complaint : Text) (w : Workload) :
    w.render (format complaint) = .ok (render (workloadLines w) ++ "\n") := by
  have hwrite : (format complaint).write w.fields = .ok (render (workloadLines w)) := rfl
  rw [Workload.render, hwrite, Except.map, beforeNul_render]

theorem keeps (complaint : Text) (w : Workload) : (format complaint).Keeps w := by
  refine ⟨⟨_, render_eq complaint w⟩, fun content hcontent => ?_⟩
  rw [render_eq, Except.ok.injEq] at hcontent
  subst hcontent
  exact ⟨view (workloadLines w), read_of_read? complaint (read?_render _),
    fun name => ofDocument_view name w⟩

end StableOrdinals.Block
