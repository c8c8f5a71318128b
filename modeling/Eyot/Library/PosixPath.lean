import Eyot.Library.Scan

/-! Texts read as POSIX paths: the functions of Python's `posixpath` on them, and the names a path
goes through. -/

namespace Eyot.PosixPath

def isSlash (c : Char) : Bool := c = '/'

/-- `p.strip("/")`. -/
def strip (p : List Char) : List Char := Scan.strip isSlash p

/-- `p.rstrip("/")`. -/
def rstrip (p : List Char) : List Char := p.rdropWhile isSlash

def isAbsolute (p : List Char) : Bool := p.head? = some '/'

def join (a b : List Char) : List Char :=
  if isAbsolute b then b
  else if a = [] ∨ a.getLast? = some '/' then a ++ b
  else a ++ '/' :: b

def basename (p : List Char) : List Char := p.rtakeWhile (!isSlash ·)

def dirname (p : List Char) : List Char :=
  let head := p.rdropWhile (!isSlash ·)
  if head.all isSlash then head else rstrip head

/-- The names on the way; an empty one and `.` lead nowhere. -/
def parts (p : List Char) : List (List Char) := (Scan.words isSlash p).filter (· ≠ ['.'])

/-- Where a path leads from the working directory. -/
def resolve (cwd : List (List Char)) (p : List Char) : List (List Char) :=
  if isAbsolute p then parts p else cwd ++ parts p

@[simp] theorem parts_nil : parts [] = [] := rfl

theorem parts_append (a b : List Char) : parts (a ++ '/' :: b) = parts a ++ parts b := by
  rw [parts, Scan.words_append a b rfl, List.filter_append]
  rfl

@[simp] theorem parts_cons (p : List Char) : parts ('/' :: p) = parts p := parts_append [] p

theorem parts_rstrip (p : List Char) : parts (rstrip p) = parts p := by
  have hsplit := List.rdropWhile_append_rtakeWhile (p := isSlash) (l := p)
  have hslashes : ∀ c ∈ p.rtakeWhile isSlash, isSlash c = true :=
    fun c hc => List.mem_rtakeWhile_imp hc
  rw [parts, parts, rstrip]
  conv_rhs => rw [← hsplit]
  rw [Scan.words_append_spaces _ hslashes]

theorem parts_eq_nil_of_slashes {p : List Char} (h : ∀ c ∈ p, isSlash c = true) : parts p = [] := by
  rw [parts, Scan.words_eq_nil h]
  rfl

theorem parts_append_of_slash {a : List Char} (h : a.getLast? = some '/') (b : List Char) :
    parts (a ++ b) = parts a ++ parts b := by
  obtain ⟨a, rfl⟩ := List.getLast?_eq_some_iff.mp h
  rw [List.append_assoc, List.singleton_append, parts_append, parts_append, parts_nil,
    List.append_nil]

theorem isAbsolute_append {a : List Char} (h : a ≠ []) (b : List Char) :
    isAbsolute (a ++ b) = isAbsolute a := by
  cases a with
  | nil => exact absurd rfl h
  | cons c a => rfl

/-- An absolute path starts anew. -/
theorem join_of_absolute {b : List Char} (h : isAbsolute b = true) (a : List Char) :
    join a b = b := if_pos h

theorem resolve_join {b : List Char} (h : isAbsolute b = false) (cwd : List (List Char))
    (a : List Char) : resolve cwd (join a b) = resolve cwd a ++ parts b := by
  have hparts : parts (join a b) = parts a ++ parts b := by
    rw [join, if_neg (by simp [h])]
    split
    · rename_i ha
      obtain rfl | hlast := ha
      · rfl
      · exact parts_append_of_slash hlast b
    · exact parts_append a b
  have habsolute : isAbsolute (join a b) = isAbsolute a := by
    rw [join, if_neg (by simp [h])]
    by_cases ha : a = []
    · rw [if_pos (.inl ha), ha]
      exact h
    · split <;> exact isAbsolute_append ha _
  rw [resolve, resolve, hparts, habsolute]
  split
  · rfl
  · rw [List.append_assoc]

/-- The base name is the last name of the path, and the directory is what is before it. -/
theorem parts_dirname_basename (p : List Char) :
    parts (dirname p) ++ parts (basename p) = parts p := by
  have hdirname : parts (dirname p) = parts (p.rdropWhile (!isSlash ·)) := by
    unfold dirname
    dsimp only
    split
    · rfl
    · exact parts_rstrip _
  have hsplit := List.rdropWhile_append_rtakeWhile (p := (!isSlash ·)) (l := p)
  rw [hdirname, basename]
  conv_rhs => rw [← hsplit]
  cases hhead : (p.rdropWhile (!isSlash ·)).getLast? with
  | none =>
    rw [List.getLast?_eq_none_iff] at hhead
    rw [hhead]
    rfl
  | some c =>
    have hslash : c = '/' := by
      have hne : p.rdropWhile (!isSlash ·) ≠ [] := by
        rintro hnil
        rw [hnil] at hhead
        cases hhead
      have hlast := List.rdropWhile_last_not (!isSlash ·) p hne
      rw [List.getLast?_eq_some_getLast hne, Option.some.injEq] at hhead
      rw [hhead] at hlast
      simpa [isSlash] using hlast
    rw [hslash] at hhead
    exact (parts_append_of_slash hhead _).symm

theorem isAbsolute_strip (p : List Char) : isAbsolute (strip p) = false := by
  rw [isAbsolute, decide_eq_false_iff_not]
  intro hhead
  have hslash := Scan.strip_head hhead
  exact absurd hslash (by decide)

theorem isAbsolute_basename (p : List Char) : isAbsolute (basename p) = false := by
  rw [isAbsolute, decide_eq_false_iff_not]
  intro hhead
  have hname := List.mem_rtakeWhile_imp (List.mem_of_head? hhead)
  exact absurd hname (by decide)

theorem dirname_prefix (p : List Char) : dirname p <+: p := by
  have hhead : p.rdropWhile (!isSlash ·) <+: p := List.rdropWhile_prefix _ _
  unfold dirname
  dsimp only
  split
  · exact hhead
  · exact (List.rdropWhile_prefix _ _).trans hhead

/-- Of a path that does not start with a slash, no directory does. -/
theorem isAbsolute_dirname {p : List Char} (h : isAbsolute p = false) :
    isAbsolute (dirname p) = false := by
  obtain ⟨q, hq⟩ := dirname_prefix p
  cases hd : dirname p with
  | nil => rfl
  | cons c l =>
    rw [hd] at hq
    rw [← hq] at h
    exact h

theorem strip_cons_slash (p : List Char) : strip ('/' :: p) = strip p := rfl

theorem strip_ne_nil {p : List Char} (h : isAbsolute p = false) (hp : p ≠ []) : strip p ≠ [] := by
  intro hnil
  have hslashes := Scan.strip_eq_nil.mp hnil
  cases p with
  | nil => exact hp rfl
  | cons c l =>
    have hc := hslashes c List.mem_cons_self
    rw [isSlash, decide_eq_true_eq] at hc
    rw [hc] at h
    exact absurd h (by simp [isAbsolute])

/-- What has no directory has no slash. -/
theorem isAbsolute_of_dirname_eq_nil {p : List Char} (h : dirname p = []) :
    isAbsolute p = false := by
  have hhead : p.rdropWhile (!isSlash ·) = [] := by
    unfold dirname at h
    dsimp only at h
    split at h
    · exact h
    · rename_i hslashes
      exfalso
      apply hslashes
      rw [rstrip, List.rdropWhile_eq_nil_iff] at h
      exact List.all_eq_true.mpr h
  rw [List.rdropWhile_eq_nil_iff] at hhead
  cases p with
  | nil => rfl
  | cons c l =>
    have hc := hhead c List.mem_cons_self
    rw [isAbsolute, decide_eq_false_iff_not]
    rintro ⟨⟩
    exact absurd hc (by decide)

theorem mem_parts {p part : List Char} (h : part ∈ parts p) : part ≠ [] ∧ part ≠ ['.'] := by
  obtain ⟨hword, hdot⟩ := List.mem_filter.mp h
  exact ⟨(Scan.mem_words hword).1, by simpa using hdot⟩

end Eyot.PosixPath
