import YapInference.Linting.ImportCycles

/-!
# The names of relative imports

Python resolves a relative import in the package of the file: the parent of a plain module, the
module itself where the file is an `__init__`. Both are the directory of the file. The check has
only the name left, and cuts as many parts from it as there are dots, whichever file it is. For a
plain module the first part cut is its own, and the rest is the package. For an `__init__` that part
belongs to the package, so every name is one package too high.
-/

namespace YapInference.ImportCycles

open Py

/-! ## What Python resolves -/

namespace SourcePath

/-- The file of a package, not of a plain module. -/
def isPackage (path : SourcePath) : Prop := path.stem = "__init__".toList

instance (path : SourcePath) : Decidable path.isPackage :=
  inferInstanceAs (Decidable (path.stem = "__init__".toList))

end SourcePath

/-- `__spec__.name`: the directories and the file, which is left out if it is the package's. -/
def specName (internalRoot : Text) (path : SourcePath) : Text :=
  join ['.'] (internalRoot :: path.dirs ++ if path.isPackage then [] else [path.stem])

/-- `__spec__.parent`: a package is its own, a plain module has what is before the last dot. -/
def specParent (internalRoot : Text) (path : SourcePath) : Text :=
  if path.isPackage then specName internalRoot path
  else beforeLastDot (specName internalRoot path)

/-- `importlib._bootstrap._resolve_name`: as many parts less one are cut from the package as there
are dots, unless it has fewer parts than that. -/
def resolveName (name : Option Text) (package : Text) (level : Nat) : Option Text :=
  let parts := package.splitOn '.'
  if parts.length < level then none
  else
    let base := join ['.'] (parts.take (parts.length - (level - 1)))
    let name := name.getD []
    some (if name.isEmpty then base else base ++ '.' :: name)

/-! ## Parts of a name -/

theorem not_mem_of_mem_splitOn {t part : Text} (h : part ∈ t.splitOn '.') : '.' ∉ part := by
  intro hdot
  rw [List.splitOn_eq_splitOnP] at h
  have := not_mem_of_mem_splitOnP h hdot
  simp at this

/-- Parts that are joined are read back. -/
theorem splitOn_join {parts : List Text} (h : ∀ part ∈ parts, '.' ∉ part) (hne : parts ≠ []) :
    (join ['.'] parts).splitOn '.' = parts := List.splitOn_intercalate '.' h hne

theorem join_splitOn (t : Text) : join ['.'] (t.splitOn '.') = t := List.intercalate_splitOn '.'

theorem join_cons (t : Text) (parts : List Text) :
    join ['.'] (t :: parts) = if parts.isEmpty then t else t ++ '.' :: join ['.'] parts := by
  cases parts with
  | nil => simp [join]
  | cons part parts =>
      rw [join, List.intercalate_cons_cons]
      simp [join]

/-- What stands before the last dot of a name. -/
theorem beforeLastDot_append {t part : Text} (h : '.' ∉ part) :
    beforeLastDot (t ++ '.' :: part) = t := by
  have hpart : ∀ c ∈ part, (c != '.') = true := by
    intro c hc
    rw [bne_iff_ne]
    exact fun heq => h (heq ▸ hc)
  have hrest : (t ++ '.' :: part).rdropWhile (· != '.') = t ++ ['.'] := by
    rw [List.rdropWhile, List.reverse_append, List.reverse_cons, List.append_assoc,
      List.dropWhile_append_of_pos fun c hc => hpart c (List.mem_reverse.mp hc)]
    simp
  rw [beforeLastDot, hrest, List.dropLast_concat]

/-- The first of the parts may be split beforehand. -/
theorem join_splitOn_append (t : Text) (parts : List Text) :
    join ['.'] (t.splitOn '.' ++ parts) = join ['.'] (t :: parts) := by
  cases parts with
  | nil => simp [join_splitOn, join_cons]
  | cons part parts =>
      rw [join_append (List.splitOn_ne_nil _ _) (List.cons_ne_nil _ _), join_splitOn,
        join_cons t (part :: parts)]
      simp

/-- Only the same parts make the same name. -/
theorem join_injective {parts parts' : List Text} (h : ∀ part ∈ parts, '.' ∉ part)
    (h' : ∀ part ∈ parts', '.' ∉ part) (hne : parts ≠ []) (hne' : parts' ≠ [])
    (heq : join ['.'] parts = join ['.'] parts') : parts = parts' := by
  rw [← splitOn_join h hne, heq, splitOn_join h' hne']

/-! ## Parts of a module and of its package -/

/-- The parts of the package of a file. -/
def packageParts (internalRoot : Text) (path : SourcePath) : List Text :=
  internalRoot.splitOn '.' ++ path.dirs

/-- The parts of the module, one more if it is not the package. -/
def moduleParts (internalRoot : Text) (path : SourcePath) : List Text :=
  packageParts internalRoot path ++ if path.isPackage then [] else [path.stem]

/-- The parts of what a relative import names. -/
def targetParts (target : Option Text) : List Text :=
  if (target.getD []).isEmpty then [] else (target.getD []).splitOn '.'

section Names

variable {internalRoot : Text} {path : SourcePath}

theorem packageParts_ne_nil : packageParts internalRoot path ≠ [] :=
  List.append_ne_nil_of_left_ne_nil (List.splitOn_ne_nil _ _) _

variable (internalRoot path) in
theorem lt_length_packageParts : path.dirs.length < (packageParts internalRoot path).length := by
  have hroot : 0 < (internalRoot.splitOn '.').length :=
    List.length_pos_of_ne_nil (List.splitOn_ne_nil _ _)
  rw [packageParts, List.length_append]
  omega

theorem dotless_packageParts : ∀ part ∈ packageParts internalRoot path, '.' ∉ part := by
  intro part h
  rcases List.mem_append.mp h with h | h
  · exact not_mem_of_mem_splitOn h
  · exact path.dotless part (List.mem_append_left _ h)

theorem dotless_moduleParts : ∀ part ∈ moduleParts internalRoot path, '.' ∉ part := by
  intro part h
  rcases List.mem_append.mp h with h | h
  · exact dotless_packageParts part h
  · split at h
    · exact absurd h List.not_mem_nil
    · exact path.dotless part (List.mem_append_right _ h)

theorem dotless_targetParts {target : Option Text} : ∀ part ∈ targetParts target, '.' ∉ part := by
  intro part h
  unfold targetParts at h
  split at h
  · exact absurd h List.not_mem_nil
  · exact not_mem_of_mem_splitOn h

theorem specName_eq : specName internalRoot path = join ['.'] (moduleParts internalRoot path) := by
  rw [specName, List.cons_append, ← join_splitOn_append, moduleParts, packageParts,
    List.append_assoc]

/-- **Every file is named as Python names it.** -/
theorem moduleName_eq : moduleName internalRoot path = specName internalRoot path := by
  have hparts : (if (path.dirs ++ [path.stem]).getLast? = some "__init__".toList
      then (path.dirs ++ [path.stem]).dropLast else path.dirs ++ [path.stem])
      = path.dirs ++ if path.isPackage then [] else [path.stem] := by
    rw [List.getLast?_concat, List.dropLast_concat]
    by_cases h : path.isPackage
    · rw [if_pos h, if_pos (congrArg some h), List.append_nil]
    · rw [if_neg h, if_neg fun heq => h (Option.some.inj heq)]
  unfold moduleName
  rw [specName, List.cons_append, join_cons, ← hparts]

/-- **The package of a file is its directory**, whichever kind of file it is. -/
theorem specParent_eq :
    specParent internalRoot path = join ['.'] (packageParts internalRoot path) := by
  unfold specParent
  rw [specName_eq, moduleParts]
  split
  · rw [List.append_nil]
  · have hstem : '.' ∉ path.stem := path.dotless _ (by simp)
    rw [join_append packageParts_ne_nil (by simp)]
    have happend : join ['.'] (packageParts internalRoot path) ++ ['.'] ++ join ['.'] [path.stem]
        = join ['.'] (packageParts internalRoot path) ++ '.' :: path.stem := by simp [join]
    rw [happend, beforeLastDot_append hstem]

theorem splitOn_moduleName :
    (moduleName internalRoot path).splitOn '.' = moduleParts internalRoot path := by
  rw [moduleName_eq, specName_eq]
  exact splitOn_join dotless_moduleParts
    (List.append_ne_nil_of_left_ne_nil packageParts_ne_nil _)

/-! ## The two resolutions -/

variable {level cut : Nat} {target : Option Text}

/-- What the check resolves: `level` parts are cut from the module. -/
theorem resolveImportFrom_eq (hlevel : 1 ≤ level) :
    resolveImportFrom (moduleName internalRoot path) level target =
      join ['.'] ((moduleParts internalRoot path).rdrop level ++ targetParts target) := by
  have hbase : (if level ≤ (moduleParts internalRoot path).length
      then (moduleParts internalRoot path).take ((moduleParts internalRoot path).length - level)
      else []) = (moduleParts internalRoot path).rdrop level := by
    rw [List.rdrop]
    split
    · rfl
    · rw [Nat.sub_eq_zero_of_le (by omega), List.take_zero]
  unfold resolveImportFrom
  dsimp only
  rw [splitOn_moduleName, if_neg (by omega), hbase, targetParts]
  split
  · rw [List.append_nil]
  · rfl

/-- A cut that stays in the root package leaves something of it. -/
theorem rdrop_packageParts_ne_nil (hclimb : cut ≤ path.dirs.length) :
    (packageParts internalRoot path).rdrop cut ≠ [] := by
  have hlength := lt_length_packageParts internalRoot path
  rw [List.rdrop, ne_eq, List.take_eq_nil_iff, not_or]
  exact ⟨by omega, packageParts_ne_nil⟩

/-- What Python resolves: the first of the dots cuts nothing from the package. -/
theorem resolveName_eq (hclimb : cut ≤ path.dirs.length) :
    resolveName target (specParent internalRoot path) (cut + 1) =
      some (join ['.'] ((packageParts internalRoot path).rdrop cut ++ targetParts target)) := by
  have hlength := lt_length_packageParts internalRoot path
  unfold resolveName
  rw [specParent_eq, splitOn_join dotless_packageParts packageParts_ne_nil]
  dsimp only
  rw [if_neg (by omega), Nat.add_sub_cancel, ← List.rdrop, targetParts, Option.some_inj]
  split
  · rw [List.append_nil]
  · rw [join_append (rdrop_packageParts_ne_nil hclimb) (List.splitOn_ne_nil _ _), join_splitOn]
    simp

/-- Where all of the package is cut, the root is of one part. -/
theorem root_of_rdrop_eq_nil (hclimb : cut ≤ path.dirs.length)
    (hnil : (packageParts internalRoot path).rdrop (cut + 1) = []) :
    (packageParts internalRoot path).rdrop cut = [internalRoot] := by
  have hlength := lt_length_packageParts internalRoot path
  have hall : (packageParts internalRoot path).length ≤ cut + 1 := by
    rcases List.take_eq_nil_iff.mp hnil with h | h
    · omega
    · exact absurd h packageParts_ne_nil
  have hone : (internalRoot.splitOn '.').length = 1 := by
    rw [packageParts, List.length_append] at hall hlength
    omega
  obtain ⟨part, hpart⟩ := List.length_eq_one_iff.mp hone
  have hroot : internalRoot = part := by
    rw [← join_splitOn internalRoot, hpart]
    simp [join]
  have hkeep : (packageParts internalRoot path).length - cut = 1 := by omega
  rw [List.rdrop, hkeep, packageParts, hpart, ← hroot]
  rfl

/-- With one part less left, the name is another one. -/
theorem join_rdrop_ne (hroot : internalRoot ≠ []) (hclimb : cut ≤ path.dirs.length) :
    join ['.'] ((packageParts internalRoot path).rdrop cut ++ targetParts target) ≠
      join ['.'] ((packageParts internalRoot path).rdrop (cut + 1) ++ targetParts target) := by
  intro heq
  have hlength := lt_length_packageParts internalRoot path
  have hdotless : ∀ n, ∀ part ∈ (packageParts internalRoot path).rdrop n ++ targetParts target,
      '.' ∉ part := by
    intro n part hpart
    rcases List.mem_append.mp hpart with hpart | hpart
    · exact dotless_packageParts part (List.mem_of_mem_take hpart)
    · exact dotless_targetParts part hpart
  by_cases hnil : (packageParts internalRoot path).rdrop (cut + 1) ++ targetParts target = []
  · -- nothing is left of a root that Python would name
    obtain ⟨hcut, htarget⟩ := List.append_eq_nil_iff.mp hnil
    rw [root_of_rdrop_eq_nil hclimb hcut, hcut, htarget] at heq
    exact hroot (by simpa [join] using heq)
  · have hkept := List.append_ne_nil_of_left_ne_nil
      (@rdrop_packageParts_ne_nil internalRoot path cut hclimb) (targetParts target)
    have hparts := congrArg List.length (join_injective (hdotless _) (hdotless _) hkept hnil heq)
    simp only [List.rdrop, List.length_append, List.length_take] at hparts
    omega

/--
**A relative import is resolved as Python resolves it exactly when the file is a plain module**, at
every level that stays in the root package and for every target. The name that is computed for an
`__init__` is always another one.
-/
theorem resolveImportFrom_eq_iff (hroot : internalRoot ≠ []) (hlevel : 1 ≤ level)
    (hclimb : level ≤ path.dirs.length + 1) :
    resolveName target (specParent internalRoot path) level =
        some (resolveImportFrom (moduleName internalRoot path) level target) ↔
      path.stem ≠ "__init__".toList := by
  obtain ⟨cut, rfl⟩ := Nat.exists_eq_add_of_le' hlevel
  have hcut : cut ≤ path.dirs.length := Nat.le_of_succ_le_succ hclimb
  rw [resolveName_eq hcut, resolveImportFrom_eq hlevel, Option.some_inj]
  constructor
  · intro heq hpackage
    have hparts : moduleParts internalRoot path = packageParts internalRoot path := by
      rw [moduleParts, if_pos (show path.isPackage from hpackage), List.append_nil]
    rw [hparts] at heq
    exact join_rdrop_ne hroot hcut heq
  · intro hmodule
    -- the first part that is cut is the module's own
    rw [moduleParts, if_neg (show ¬ path.isPackage from hmodule), List.rdrop_concat_succ]

/-- `from .b import x` in `src/a/c.py`. -/
theorem resolveImportFrom_eq_iff_sibling :
    resolveName (some "b".toList)
        (specParent "src".toList ⟨["a".toList], "c".toList, by decide⟩) 1 =
      some (resolveImportFrom
        (moduleName "src".toList ⟨["a".toList], "c".toList, by decide⟩) 1 (some "b".toList)) :=
  (resolveImportFrom_eq_iff (by decide) (by decide) (by decide)).mpr (by decide)

/-- `from .b import x` in `src/a/__init__.py` is of `src.a.b`. The check takes it for `src.b`. -/
theorem resolveImportFrom_package :
    ¬ ∀ (internalRoot : Text) (path : SourcePath) (level : Nat) (target : Option Text),
      internalRoot ≠ [] → 1 ≤ level → level ≤ path.dirs.length + 1 →
        resolveName target (specParent internalRoot path) level =
          some (resolveImportFrom (moduleName internalRoot path) level target) := by
  intro h
  have heq := h "src".toList ⟨["a".toList], "__init__".toList, by decide⟩ 1 (some "b".toList)
    (by decide) (by decide) (by decide)
  exact absurd heq (by decide)

end Names

end YapInference.ImportCycles
