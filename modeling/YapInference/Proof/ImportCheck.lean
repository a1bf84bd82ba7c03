import YapInference.Proof.ImportComponents

/-!
# The import cycle check

The graph of the check has an edge for every import of a file that is of the package. So whatever
has an edge is a module, and no cycle escapes the search by lying elsewhere. The check passes
exactly when no module imports itself, through however many others.
-/

namespace YapInference.ImportCycles

open Py Components Relation

/-! ## The graph of the files -/

/-- `graph_edges`. -/
def importGraph (internalRoot : Text) (files : List SourceFile) : Edges Text :=
  let moduleFiles := collectModules internalRoot files
  parseImportEdges internalRoot moduleFiles (buildKnownModules moduleFiles)

/-- `module_names`. -/
def moduleNames (internalRoot : Text) (files : List SourceFile) : List Text :=
  ((collectModules internalRoot files).map ModuleFile.module).dedup

/-- What a file imports from the package. -/
def importsOf (internalRoot : Text) (knownModules : List Text) (entry : ModuleFile) : List Text :=
  entry.file.nodes.flatMap (nodeTargets internalRoot knownModules entry.module)

section Edges

variable {α : Type} [DecidableEq α] {edges : Edges α} {module x y : α}

theorem imports_addEdge {resolved : α} :
    Imports (addEdge edges module resolved) x y ↔
      Imports edges x y ∨ x = module ∧ y = resolved := by
  unfold Imports neighborsOf addEdge
  by_cases hx : module = x
  · subst hx
    rw [Dict.get?_set_self, Option.getD_some]
    split
    · rename_i hmem
      have hresolved : resolved ∈ (edges.get? module).getD [] := by simpa using hmem
      constructor
      · exact .inl
      · intro h
        rcases h with h | ⟨-, rfl⟩
        · exact h
        · exact hresolved
    · rw [List.mem_append, List.mem_singleton, and_iff_right rfl]
  · rw [Dict.get?_set_ne _ _ hx, iff_self_or]
    intro h
    exact absurd h.1.symm hx

theorem imports_foldl_addEdge {targets : List α} :
    Imports (targets.foldl (fun edges resolved => addEdge edges module resolved) edges) x y ↔
      Imports edges x y ∨ x = module ∧ y ∈ targets := by
  induction targets generalizing edges with
  | nil => simp
  | cons target targets ih =>
      rw [List.foldl_cons, ih, imports_addEdge, List.mem_cons, or_assoc, and_or_left]

theorem nodup_foldl_addEdge {targets : List α} (h : (Dict.keys edges).Nodup) :
    (Dict.keys (targets.foldl
      (fun edges resolved => addEdge edges module resolved) edges)).Nodup := by
  induction targets generalizing edges with
  | nil => exact h
  | cons target targets ih => exact ih (Dict.nodup_keys_set _ _ h)

/-- Where no key is there twice, `self_cycles` lists what imports itself. -/
theorem selfCycles_eq_nil_iff (h : (Dict.keys edges).Nodup) :
    selfCycles edges = [] ↔ ∀ x, ¬ Imports edges x x := by
  unfold selfCycles
  rw [List.map_eq_nil_iff, List.filter_eq_nil_iff]
  constructor
  · intro hnone x himports
    obtain ⟨targets, hentry, hmem⟩ := mem_of_imports himports
    exact hnone _ hentry (by simpa using hmem)
  · intro hnone entry hentry hmem
    obtain ⟨x, targets⟩ := entry
    refine hnone x ?_
    rw [Imports, neighborsOf, Dict.get?_of_mem h hentry]
    simpa using hmem

end Edges

section Graph

variable {internalRoot : Text} {known : List Text} {moduleFiles : List ModuleFile} {x y : Text}

/-- **The edges of the graph** are the imports of the files. -/
theorem imports_parseImportEdges :
    Imports (parseImportEdges internalRoot moduleFiles known) x y ↔
      ∃ entry ∈ moduleFiles, x = entry.module ∧ y ∈ importsOf internalRoot known entry := by
  have hrun : ∀ edges : Edges Text,
      Imports (moduleFiles.foldl (fun edges entry =>
        (importsOf internalRoot known entry).foldl
          (fun edges resolved => addEdge edges entry.module resolved) edges) edges) x y ↔
      Imports edges x y ∨
        ∃ entry ∈ moduleFiles, x = entry.module ∧ y ∈ importsOf internalRoot known entry := by
    induction moduleFiles with
    | nil => simp
    | cons entry moduleFiles ih =>
        intro edges
        rw [List.foldl_cons, ih, imports_foldl_addEdge, or_assoc, List.exists_mem_cons_iff]
  have hempty : ¬ Imports ([] : Edges Text) x y := List.not_mem_nil
  exact (hrun []).trans (or_iff_right hempty)

theorem nodup_keys_parseImportEdges :
    (Dict.keys (parseImportEdges internalRoot moduleFiles known)).Nodup := by
  unfold parseImportEdges
  exact List.foldlRecOn (motive := fun edges => (Dict.keys edges).Nodup) _ _ List.nodup_nil
    fun _ h _ _ => nodup_foldl_addEdge h

end Graph

variable {internalRoot : Text} {files : List SourceFile} {x y : Text}

/-- Only modules import. -/
theorem mem_moduleNames_of_imports (h : Imports (importGraph internalRoot files) x y) :
    x ∈ moduleNames internalRoot files := by
  obtain ⟨entry, hentry, rfl, -⟩ := imports_parseImportEdges.mp h
  exact List.mem_dedup.mpr (List.mem_map_of_mem hentry)

/-- So what is linked to another node is a module. -/
theorem reachedFrom_of_linked (hne : x ≠ y)
    (h : Linked (Imports (importGraph internalRoot files)) x y) :
    ReachedFrom (Imports (importGraph internalRoot files)) (moduleNames internalRoot files) x := by
  rcases ReflTransGen.cases_head h.1 with heq | ⟨z, hedge, -⟩
  · exact absurd heq hne
  · exact ⟨x, mem_moduleNames_of_imports hedge, .refl⟩

/-! ## What the check reports -/

/-- `main` passes when no module imports itself, at one remove or at several. -/
theorem main_eq_zero_iff {depth : Nat} {components : List (List Text)}
    (hsearch : findStronglyConnectedComponents (importGraph internalRoot files)
      (moduleNames internalRoot files) depth = some components)
    (hcycles : cycleComponents components ≠ [] ↔
      ∃ x y, x ≠ y ∧ Linked (Imports (importGraph internalRoot files)) x y) :
    main internalRoot (some files) depth = some 0 ↔
      ∀ x, ¬ TransGen (Imports (importGraph internalRoot files)) x x := by
  have hmain : main internalRoot (some files) depth =
      some (if (cycleComponents components).isEmpty &&
        (selfCycles (importGraph internalRoot files)).isEmpty then 0 else 1) := by
    change Option.map _ (findStronglyConnectedComponents (importGraph internalRoot files)
      (moduleNames internalRoot files) depth) = _
    rw [hsearch]
    rfl
  have hself : selfCycles (importGraph internalRoot files) = [] ↔ _ :=
    selfCycles_eq_nil_iff nodup_keys_parseImportEdges
  rw [hmain, Option.some_inj, ite_eq_left_iff, Bool.and_eq_true, List.isEmpty_iff, List.isEmpty_iff,
    hself]
  constructor
  · intro h x hcycle
    have hnone := not_imp_comm.mp h one_ne_zero
    rcases transGen_self_iff.mp hcycle with hedge | ⟨y, hne, hlinked⟩
    · exact hnone.2 x hedge
    · exact hcycles.mpr ⟨x, y, hne, hlinked⟩ hnone.1
  · intro h hreported
    refine absurd ⟨?_, fun x hedge => h x (.single hedge)⟩ hreported
    by_contra hlarge
    obtain ⟨x, y, hne, hlinked⟩ := hcycles.mp hlarge
    exact h x (transGen_self_iff.mpr (.inr ⟨y, hne, hlinked⟩))

/--
**The import cycles are found.** For every graph, every set of modules and every order of either,
the search returns, and with it the lists that partition what the modules reach, in which nodes are
together exactly when each reaches the other. In the graph of any files, a list of more than one
module is reported exactly when two modules reach each other, and the check passes exactly when
there is no cycle at all. The calls of `visit` nest no deeper than there are nodes.
-/
theorem findStronglyConnectedComponents_spec :
    (∀ (edges : Edges Text) (modules : List Text) (depth : Nat),
      (allNodes edges modules).length ≤ depth →
      ∃ components, findStronglyConnectedComponents edges modules depth = some components
        ∧ IsPartition (Imports edges) (ReachedFrom (Imports edges) modules) components
        ∧ (∀ x y, ReachedFrom (Imports edges) modules x →
          ((∃ c ∈ components, x ∈ c ∧ y ∈ c) ↔ Linked (Imports edges) x y))
        ∧ (cycleComponents components ≠ [] ↔
          ∃ x y, ReachedFrom (Imports edges) modules x ∧ x ≠ y ∧ Linked (Imports edges) x y))
    ∧ ∀ (internalRoot : Text) (files : List SourceFile) (depth : Nat),
      (allNodes (importGraph internalRoot files) (moduleNames internalRoot files)).length ≤ depth →
      ∃ components, findStronglyConnectedComponents (importGraph internalRoot files)
          (moduleNames internalRoot files) depth = some components
        ∧ (cycleComponents components ≠ [] ↔
          ∃ x y, x ≠ y ∧ Linked (Imports (importGraph internalRoot files)) x y)
        ∧ (main internalRoot (some files) depth = some 0 ↔
          ∀ x, ¬ TransGen (Imports (importGraph internalRoot files)) x x) := by
  have hreported : ∀ {edges : Edges Text} {modules : List Text} {components : List (List Text)},
      IsPartition (Imports edges) (ReachedFrom (Imports edges) modules) components →
      (cycleComponents components ≠ [] ↔
        ∃ x y, ReachedFrom (Imports edges) modules x ∧ x ≠ y ∧ Linked (Imports edges) x y) := by
    intro edges modules components hpartition
    rw [← hpartition.exists_one_lt_iff, cycleComponents, ne_eq, List.filter_eq_nil_iff]
    simp
  constructor
  · intro edges modules depth hdepth
    obtain ⟨components, hsearch, hpartition⟩ := search_spec hdepth
    exact ⟨components, hsearch, hpartition, fun x y hx => hpartition.same_iff hx,
      hreported hpartition⟩
  · intro internalRoot files depth hdepth
    obtain ⟨components, hsearch, hpartition⟩ := search_spec hdepth
    have hcycles : cycleComponents components ≠ [] ↔
        ∃ x y, x ≠ y ∧ Linked (Imports (importGraph internalRoot files)) x y := by
      rw [hreported hpartition]
      constructor
      · intro h
        obtain ⟨x, y, -, hne, hlinked⟩ := h
        exact ⟨x, y, hne, hlinked⟩
      · intro h
        obtain ⟨x, y, hne, hlinked⟩ := h
        exact ⟨x, y, reachedFrom_of_linked hne hlinked, hne, hlinked⟩
    exact ⟨components, hsearch, hcycles, main_eq_zero_iff hsearch hcycles⟩

/-- Two modules that import each other, and a file that imports its own module. -/
theorem findStronglyConnectedComponents_spec_pair :
    (∃ components,
      findStronglyConnectedComponents [(['a'], [['b']]), (['b'], [['a'], ['c']])] [['a']] 3
        = some components ∧ cycleComponents components ≠ [])
    ∧ ∃ depth, main "src".toList (some [⟨⟨[], ['a'], by decide⟩, [.importFrom 1 (some ['a'])]⟩])
        depth ≠ some 0 := by
  constructor
  · obtain ⟨components, hsearch, -, -, hreported⟩ :=
      findStronglyConnectedComponents_spec.1 [(['a'], [['b']]), (['b'], [['a'], ['c']])] [['a']] 3
        (by decide)
    refine ⟨components, hsearch, hreported.mpr ⟨['a'], ['b'], ?_, by decide, ?_, ?_⟩⟩
    · exact ⟨['a'], List.mem_singleton_self _, .refl⟩
    · exact .single (by unfold Imports; decide)
    · exact .single (by unfold Imports; decide)
  · obtain ⟨components, -, -, hmain⟩ := findStronglyConnectedComponents_spec.2 "src".toList
      [⟨⟨[], ['a'], by decide⟩, [.importFrom 1 (some ['a'])]⟩] _ le_rfl
    have hknown : edgeTarget "src".toList ["src.a".toList, "src".toList] "src.a".toList =
        some "src.a".toList := by
      rw [edgeTarget, if_pos (by decide), nearestKnownModule, if_neg (by decide),
        if_pos (by decide)]
    refine ⟨_, fun hpassed => hmain.mp hpassed "src.a".toList (.single ?_)⟩
    refine imports_parseImportEdges.mpr ⟨_, List.mem_singleton_self _, by decide, ?_⟩
    exact List.mem_flatMap.mpr ⟨_, List.mem_singleton_self _, Option.mem_toList.mpr hknown⟩

end YapInference.ImportCycles
