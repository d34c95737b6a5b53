import KakuneCore.Plugins.Installation

/-!
# Registering plugins together

Manifests are registered one after another, each against the node types of those before it. Whether
that succeeds does not depend on the order: every package must register **on its own**, and no two
may declare the same node type.
-/

namespace KakuneCore

variable {env : InstallEnv} {disk : PluginDisk}

/-! ### One package -/

section Package

variable {package : PackageEntry} {registered additions declarations result : List String}

/-- The additions are new, and none is built in. -/
theorem collectNodeTypes_spec
    (h : collectNodeTypes env package registered additions declarations = .ok result) :
    additions <+: result ∧ (additions.Nodup → result.Nodup) ∧
      ∀ nodeType ∈ result, nodeType ∈ additions ∨ isBuiltinNodeType nodeType = false := by
  induction declarations generalizing additions with
  | nil =>
    cases h
    exact ⟨List.prefix_refl _, fun hnodup => hnodup, fun _ => .inl⟩
  | cons declaration declarations ih =>
    obtain ⟨nodeType, -, h⟩ := except_bind_eq_ok h
    split at h
    · cases h
    · next hbuiltin =>
      split at h
      · cases h
      · next hnew =>
        obtain ⟨hpre, hnodup, hbuiltins⟩ := ih h
        refine ⟨(List.prefix_append _ _).trans hpre, fun hadditions => hnodup ?_, fun t ht => ?_⟩
        · refine List.nodup_append.mpr ⟨hadditions, List.nodup_singleton _, fun a ha b hb heq => ?_⟩
          rw [List.mem_singleton] at hb
          exact hnew (.inr (hb ▸ heq ▸ ha))
        · rcases hbuiltins t ht with hold | hfalse
          · rcases List.mem_append.mp hold with hold | hlast
            · exact .inl hold
            · rw [List.mem_singleton.mp hlast]
              exact .inr (Bool.not_eq_true _ ▸ hbuiltin)
          · exact .inr hfalse

/-- **Collecting against what is registered** is collecting alone, without a conflict. -/
theorem collectNodeTypes_eq_ok_iff :
    collectNodeTypes env package registered additions declarations = .ok result ↔
      collectNodeTypes env package [] additions declarations = .ok result ∧
        ∀ nodeType ∈ result, nodeType ∈ additions ∨ nodeType ∉ registered := by
  induction declarations generalizing additions with
  | nil =>
    refine ⟨fun h => ⟨h, fun nodeType hmem => .inl ?_⟩, And.left⟩
    cases h
    exact hmem
  | cons declaration declarations ih =>
    rw [collectNodeTypes, collectNodeTypes]
    cases env.loadNodeType package declaration with
    | error error => exact ⟨nofun, nofun⟩
    | ok nodeType =>
      simp only [bind, Except.bind, List.not_mem_nil, false_or]
      split
      · exact ⟨nofun, nofun⟩
      · by_cases hadded : nodeType ∈ additions
        · simp only [hadded, or_true, if_true]
          exact ⟨nofun, nofun⟩
        · by_cases hregistered : nodeType ∈ registered
          · simp only [hadded, hregistered, or_false, if_true, if_false]
            refine ⟨nofun, fun ⟨h, hfresh⟩ => ?_⟩
            -- the type that is registered would be among the additions
            have hmem := (collectNodeTypes_spec h).1.subset
              (List.mem_append_right _ (List.mem_singleton_self nodeType))
            rcases hfresh nodeType hmem with hold | hnew
            · exact absurd hold hadded
            · exact absurd hregistered hnew
          · simp only [hadded, hregistered, or_self, if_false]
            rw [ih]
            refine and_congr_right fun _ => forall₂_congr fun t _ => ?_
            rw [List.mem_append, List.mem_singleton]
            refine ⟨?_, Or.imp_left .inl⟩
            rintro ((hold | rfl) | hnew)
            · exact .inl hold
            · exact .inr hregistered
            · exact .inr hnew

variable {manifest : PluginManifest} {all : List String}

theorem registerManifest_eq_ok_iff : registerManifest env package registered manifest = .ok all ↔
    ∃ types, registerManifest env package [] manifest = .ok types ∧
      types.Disjoint registered ∧ all = registered ++ types := by
  rw [registerManifest, registerManifest]
  split
  · exact ⟨nofun, nofun⟩
  · exact ⟨nofun, nofun⟩
  · next declarations _ _ =>
    cases (packageDigest env.sha256 package).mapError ("cannot digest plugin package: " ++ ·) with
    | error error => exact ⟨nofun, nofun⟩
    | ok digest =>
      constructor
      · intro h
        obtain ⟨_, -, h⟩ := except_bind_eq_ok h
        obtain ⟨additions, hcollect, h⟩ := except_bind_eq_ok h
        cases h
        obtain ⟨halone, hfresh⟩ := collectNodeTypes_eq_ok_iff.mp hcollect
        refine ⟨additions, ?_, fun t ht => (hfresh t ht).resolve_left List.not_mem_nil, rfl⟩
        show collectNodeTypes env package [] [] declarations >>= _ = _
        rw [halone]
        rfl
      · rintro ⟨types, h, hdisjoint, rfl⟩
        obtain ⟨_, -, h⟩ := except_bind_eq_ok h
        obtain ⟨additions, hcollect, h⟩ := except_bind_eq_ok h
        cases h
        have hregistered :
            collectNodeTypes env package registered [] declarations = .ok additions :=
          collectNodeTypes_eq_ok_iff.mpr ⟨hcollect, fun t ht => .inr (hdisjoint ht)⟩
        show collectNodeTypes env package registered [] declarations >>= _ = _
        rw [hregistered]
        rfl

end Package

/-! ### Packages on the disk -/

section Paths

variable (env disk)

/-- The package of a manifest registers on its own. -/
def Registers (path : String) : Prop := ∃ types, registerManifestPath env disk [] path = .ok types

/-- The node types that the package of a manifest declares. -/
def declaredTypes (path : String) : List String :=
  match registerManifestPath env disk [] path with
  | .ok types => types
  | .error _ => []

variable {env disk} {path : String} {registered all : List String}

theorem registerManifestPath_eq_ok_iff : registerManifestPath env disk registered path = .ok all ↔
    Registers env disk path ∧ (declaredTypes env disk path).Disjoint registered ∧
      all = registered ++ declaredTypes env disk path := by
  have hsplit : registerManifestPath env disk registered path = .ok all ↔
      ∃ types, registerManifestPath env disk [] path = .ok types ∧ types.Disjoint registered ∧
        all = registered ++ types := by
    rw [registerManifestPath, registerManifestPath]
    split
    · exact ⟨nofun, nofun⟩
    · next package hpackage =>
      cases (env.loadManifest package (fileName path)).mapError
          ("cannot load plugin manifest: " ++ ·) with
      | error error => exact ⟨nofun, nofun⟩
      | ok manifest => exact registerManifest_eq_ok_iff
  rw [hsplit]
  constructor
  · rintro ⟨types, htypes, hdisjoint, hall⟩
    rw [declaredTypes, htypes]
    exact ⟨⟨types, htypes⟩, hdisjoint, hall⟩
  · rintro ⟨⟨types, htypes⟩, hdisjoint, hall⟩
    rw [declaredTypes, htypes] at hdisjoint hall
    exact ⟨types, htypes, hdisjoint, hall⟩

/-- What a package declares is new to it, and not built in. -/
theorem declaredTypes_spec (env : InstallEnv) (disk : PluginDisk) (path : String) :
    (declaredTypes env disk path).Nodup ∧
      ∀ nodeType ∈ declaredTypes env disk path, isBuiltinNodeType nodeType = false := by
  rw [declaredTypes]
  split
  · next types htypes =>
    rw [registerManifestPath] at htypes
    split at htypes
    · cases htypes
    · obtain ⟨manifest, -, htypes⟩ := except_bind_eq_ok htypes
      rw [registerManifest] at htypes
      split at htypes
      · cases htypes
      · cases htypes
      · obtain ⟨_, -, htypes⟩ := except_bind_eq_ok htypes
        obtain ⟨additions, hcollect, htypes⟩ := except_bind_eq_ok htypes
        cases htypes
        obtain ⟨-, hnodup, hbuiltin⟩ := collectNodeTypes_spec hcollect
        exact ⟨hnodup List.nodup_nil, fun t ht => (hbuiltin t ht).resolve_left List.not_mem_nil⟩
  · exact ⟨List.nodup_nil, fun _ ht => absurd ht List.not_mem_nil⟩

/-- Only the package of the manifest matters. -/
theorem registers_congr {disk' : PluginDisk}
    (h : disk' (parentPath path) = disk (parentPath path)) :
    (Registers env disk' path ↔ Registers env disk path) ∧
      declaredTypes env disk' path = declaredTypes env disk path := by
  rw [Registers, Registers, declaredTypes, declaredTypes, registerManifestPath,
    registerManifestPath, h]
  exact ⟨Iff.rfl, rfl⟩

/-- A package that registers is on the disk. -/
theorem Registers.isSome (h : Registers env disk path) : (disk (parentPath path)).isSome := by
  obtain ⟨types, htypes⟩ := h
  rw [registerManifestPath] at htypes
  split at htypes
  · cases htypes
  · next package hpackage => rw [hpackage, Option.isSome_some]

end Paths

/-! ### All of them -/

section Rows

variable {describe : PluginRow → String} {registered all : List String} {rows : List PluginRow}

/-- No node type is declared by both packages. -/
def Apart (env : InstallEnv) (disk : PluginDisk) (row row' : PluginRow) : Prop :=
  (declaredTypes env disk row.manifestPath).Disjoint (declaredTypes env disk row'.manifestPath)

theorem Apart.symm {row row' : PluginRow} (h : Apart env disk row row') :
    Apart env disk row' row := List.Disjoint.symm h

/-- **Registration in any order**: each on its own, and no two with one node type. -/
theorem registerRows_eq_ok_iff : registerRows env disk describe registered rows = .ok all ↔
    (∀ row ∈ rows, Registers env disk row.manifestPath ∧
      (declaredTypes env disk row.manifestPath).Disjoint registered) ∧
    rows.Pairwise (Apart env disk) ∧
    all = registered ++ rows.flatMap fun row => declaredTypes env disk row.manifestPath := by
  induction rows generalizing registered with
  | nil => simp [registerRows, eq_comm]
  | cons row rows ih =>
    have hstep : registerRows env disk describe registered (row :: rows) = .ok all ↔
        ∃ next, registerManifestPath env disk registered row.manifestPath = .ok next ∧
          registerRows env disk describe next rows = .ok all := by
      rw [registerRows]
      cases registerManifestPath env disk registered row.manifestPath with
      | error error => exact ⟨nofun, nofun⟩
      | ok next => exact ⟨fun h => ⟨next, rfl, h⟩, fun ⟨_, hnext, h⟩ => Except.ok.inj hnext ▸ h⟩
    rw [hstep]
    simp only [registerManifestPath_eq_ok_iff, ih, List.forall_mem_cons, List.pairwise_cons,
      List.flatMap_cons, Apart]
    constructor
    · rintro ⟨_, ⟨hregisters, hdisjoint, rfl⟩, hrows, hpairwise, rfl⟩
      refine ⟨⟨⟨hregisters, hdisjoint⟩, fun other hother => ?_⟩,
        ⟨fun other hother => ?_, hpairwise⟩, List.append_assoc ..⟩
      · obtain ⟨hothers, hdisjoint', -⟩ := by
          simpa only [List.disjoint_append_right] using hrows other hother
        exact ⟨hothers, hdisjoint'⟩
      · obtain ⟨-, -, hapart⟩ := by
          simpa only [List.disjoint_append_right] using hrows other hother
        exact hapart.symm
    · rintro ⟨⟨⟨hregisters, hdisjoint⟩, hrows⟩, ⟨hapart, hpairwise⟩, rfl⟩
      refine ⟨_, ⟨hregisters, hdisjoint, rfl⟩, fun other hother => ?_, hpairwise,
        (List.append_assoc ..).symm⟩
      exact ⟨(hrows other hother).1,
        List.disjoint_append_right.mpr ⟨(hrows other hother).2, (hapart other hother).symm⟩⟩

end Rows

end KakuneCore
