/-
What is written to a file is read back, and does not get in the way of other files.

A path that can be written to has a landing: the place of a file, or a free name (`Target.landing?`). A file that is put
at the landing of one path leaves every other path the landing that it had (`landing?_target_put`), since no path can go
on behind a file.

- `write_eq_ok_iff`: a path is written to exactly if it has a landing and no slash at its end;
- `readText_of_write`: the text that was written is read back;
- `read_of_write_ne`: a file at another place is read as before;
- `isOk_write_of_write`: after one file is written, just the same paths can be written to.
-/
import LedgerTotals.Proofs.Text.Utf8
import LedgerTotals.Files

namespace LedgerTotals.Files

/-- the place where a file would be put -/
def Target.landing? : Target → Option Place
  | .found place (.file _) => some place
  | .free place => some place
  | _ => none

/-! ## One place -/

theorem get?_of_isGiven {files : Files} {place : Place} (h : place.isGiven = true) :
    files.get? place = some .directory := by
  rw [get?, if_pos h]

theorem get?_put_self (files : Files) {place : Place} (h : place.isGiven = false) (node : Node) :
    (files.put place node).get? place = some node := by
  simp [get?, h, put]

theorem get?_put_ne (files : Files) {place other : Place} (h : other ≠ place) (node : Node) :
    (files.put place node).get? other = files.get? other := by
  simp [get?, put, Ne.symm h]

theorem isGiven_eq_false {files : Files} {place : Place} (h : files.get? place ≠ some .directory) :
    place.isGiven = false := by
  by_contra hgiven
  rw [Bool.not_eq_false] at hgiven
  exact h (get?_of_isGiven hgiven)

/-! ## Following a path -/

variable {files : Files}

theorem follow_cons_idle {p : String} (h : Path.isIdle p = true) (files : Files) (start : Place) (ps : List String) :
    files.follow start .directory (p :: ps) = files.follow start .directory ps := by
  rw [follow, if_pos h]

theorem follow_cons_up (files : Files) (start : Place) (ps : List String) :
    files.follow start .directory (".." :: ps) = files.follow start.above .directory ps := by
  rw [follow, if_neg (by decide), if_pos rfl]

/-- a name that stands for itself -/
structure IsName (p : String) : Prop where
  idle : Path.isIdle p = false
  up : p ≠ ".."

theorem follow_cons_overlong {p : String} (h : IsName p) (hlong : Path.isOverlong p = true) (files : Files)
    (start : Place) (ps : List String) :
    files.follow start .directory (p :: ps) = if ps.isEmpty then .overlong else .lost .nameTooLong := by
  rw [follow, if_neg (by simp [h.idle]), if_neg h.up, if_pos hlong]

theorem follow_cons_name {p : String} (h : IsName p) (hlong : Path.isOverlong p = false) (files : Files)
    (start : Place) (ps : List String) :
    files.follow start .directory (p :: ps) =
      match files.get? (p :: start) with
      | some node => files.follow (p :: start) node ps
      | none => if ps.isEmpty then .free (p :: start) else .lost .notFound := by
  cases hget : files.get? (p :: start) <;> simp [follow, h.idle, h.up, hlong, hget]

/-- the induction on the names of a path, with one case for each kind of step -/
theorem follow_induction {motive : Place → List String → Prop} (nil : ∀ start, motive start [])
    (idle : ∀ start p ps, Path.isIdle p = true → motive start ps → motive start (p :: ps))
    (up : ∀ start ps, motive start.above ps → motive start (".." :: ps))
    (overlong : ∀ start p ps, IsName p → Path.isOverlong p = true → motive start (p :: ps))
    (name : ∀ start p ps, IsName p → Path.isOverlong p = false → motive (p :: start) ps → motive start (p :: ps))
    (start : Place) (ps : List String) : motive start ps := by
  induction ps generalizing start with
  | nil => exact nil start
  | cons p ps ih =>
    cases hidle : Path.isIdle p
    · by_cases hup : p = ".."
      · exact hup ▸ up start ps (ih _)
      · cases hlong : Path.isOverlong p
        · exact name start p ps ⟨hidle, hup⟩ hlong (ih _)
        · exact overlong start p ps ⟨hidle, hup⟩ hlong
    · exact idle start p ps hidle (ih _)

theorem landing?_follow_overlong {p : String} (h : IsName p) (hlong : Path.isOverlong p = true) (files : Files)
    (start : Place) (ps : List String) : (files.follow start .directory (p :: ps)).landing? = none := by
  rw [follow_cons_overlong h hlong]
  split_ifs <;> rfl

/-- behind a file a path leads nowhere -/
theorem landing?_follow_file (files : Files) (start : Place) (bytes : List UInt8) (ps : List String) :
    (files.follow start (.file bytes) ps).landing? = if ps.isEmpty then some start else none := by
  cases ps <;> rw [follow] <;> rfl

/-- there is no directory where a file may be put -/
theorem get?_of_landing? {start place : Place} {ps : List String}
    (h : (files.follow start .directory ps).landing? = some place) : files.get? place ≠ some .directory := by
  induction start, ps using follow_induction with
  | nil start => cases h
  | idle start p ps hidle ih => exact ih (follow_cons_idle hidle files start ps ▸ h)
  | up start ps ih => exact ih (follow_cons_up files start ps ▸ h)
  | overlong start p ps hp hlong =>
    rw [landing?_follow_overlong hp hlong] at h
    cases h
  | name start p ps hp hlong ih =>
    rw [follow_cons_name hp hlong] at h
    cases hget : files.get? (p :: start) with
    | none =>
      simp only [hget] at h
      split_ifs at h
      · obtain rfl := Option.some.inj h
        simp [hget]
      · cases h
    | some node =>
      simp only [hget] at h
      cases node with
      | directory => exact ih h
      | file old =>
        rw [landing?_follow_file] at h
        split_ifs at h
        obtain rfl := Option.some.inj h
        simp [hget]

/-- the path leads to the file that was put at its landing -/
theorem follow_put_self {start place : Place} {ps : List String}
    (h : (files.follow start .directory ps).landing? = some place) (bytes : List UInt8) :
    (files.put place (.file bytes)).follow start .directory ps = .found place (.file bytes) := by
  have hplace := get?_of_landing? h
  have hput := files.get?_put_self (isGiven_eq_false hplace) (.file bytes)
  induction start, ps using follow_induction with
  | nil start => cases h
  | idle start p ps hidle ih =>
    rw [follow_cons_idle hidle]
    exact ih (follow_cons_idle hidle files start ps ▸ h)
  | up start ps ih =>
    rw [follow_cons_up]
    exact ih (follow_cons_up files start ps ▸ h)
  | overlong start p ps hp hlong =>
    rw [landing?_follow_overlong hp hlong] at h
    cases h
  | name start p ps hp hlong ih =>
    rw [follow_cons_name hp hlong] at h ⊢
    cases hget : files.get? (p :: start) with
    | none =>
      simp only [hget] at h
      split_ifs at h with hps
      · obtain rfl := Option.some.inj h
        rw [List.isEmpty_iff.1 hps]
        simp [hput, follow]
      · cases h
    | some node =>
      simp only [hget] at h
      cases node with
      | directory =>
        -- a directory on the way is not the place of the file
        have hne : p :: start ≠ place := fun heq => hplace (heq ▸ hget)
        simp only [get?_put_ne files hne, hget]
        exact ih h
      | file old =>
        rw [landing?_follow_file] at h
        split_ifs at h with hps
        obtain rfl := Option.some.inj h
        rw [List.isEmpty_iff.1 hps]
        simp [hput, follow]

/-- a file that is put where no directory is leaves every path its landing -/
theorem landing?_follow_put {place : Place} (hplace : files.get? place ≠ some .directory) (bytes : List UInt8)
    (start : Place) (ps : List String) :
    ((files.put place (.file bytes)).follow start .directory ps).landing? =
      (files.follow start .directory ps).landing? := by
  have hput := files.get?_put_self (isGiven_eq_false hplace) (.file bytes)
  induction start, ps using follow_induction with
  | nil start => rw [follow, follow]
  | idle start p ps hidle ih => rw [follow_cons_idle hidle, follow_cons_idle hidle, ih]
  | up start ps ih => rw [follow_cons_up, follow_cons_up, ih]
  | overlong start p ps hp hlong => rw [landing?_follow_overlong hp hlong, landing?_follow_overlong hp hlong]
  | name start p ps hp hlong ih =>
    rw [follow_cons_name hp hlong, follow_cons_name hp hlong]
    by_cases heq : p :: start = place
    · -- the file is met, where there was a file or nothing before
      subst heq
      simp only [hput, landing?_follow_file]
      cases hget : files.get? (p :: start) with
      | none => cases ps <;> rfl
      | some node =>
        cases node with
        | directory => exact absurd hget hplace
        | file old => simp only [landing?_follow_file]
    · rw [get?_put_ne files heq]
      cases hget : files.get? (p :: start) with
      | none => rfl
      | some node =>
        cases node with
        | directory => exact ih
        | file old => simp only [landing?_follow_file]

/-- a path that leads to a file still leads to it after another file is put where no directory is -/
theorem follow_put_ne {place other : Place} {old : List UInt8} (hplace : files.get? place ≠ some .directory)
    (hne : other ≠ place) (bytes : List UInt8) {start : Place} {ps : List String}
    (h : files.follow start .directory ps = .found other (.file old)) :
    (files.put place (.file bytes)).follow start .directory ps = .found other (.file old) := by
  induction start, ps using follow_induction with
  | nil start => cases h
  | idle start p ps hidle ih =>
    rw [follow_cons_idle hidle]
    exact ih (follow_cons_idle hidle files start ps ▸ h)
  | up start ps ih =>
    rw [follow_cons_up]
    exact ih (follow_cons_up files start ps ▸ h)
  | overlong start p ps hp hlong =>
    rw [follow_cons_overlong hp hlong] at h
    split_ifs at h
  | name start p ps hp hlong ih =>
    rw [follow_cons_name hp hlong] at h ⊢
    cases hget : files.get? (p :: start) with
    | none =>
      simp only [hget] at h
      split_ifs at h
    | some node =>
      simp only [hget] at h
      cases node with
      | directory =>
        have hway : p :: start ≠ place := fun heq => hplace (heq ▸ hget)
        rw [get?_put_ne files hway, hget]
        exact ih h
      | file old' =>
        -- behind a file a path goes no further
        have hend := congrArg Target.landing? h
        rw [landing?_follow_file] at hend
        split_ifs at hend
        · obtain rfl : p :: start = other := Option.some.inj hend
          rw [get?_put_ne files hne, hget]
          cases ps <;> exact h
        · cases hend

/-! ## Paths -/

/-- a path leads nowhere in any files, or its names are followed from the root or from the working directory -/
theorem target_cases (path : String) :
    (∃ e, ∀ files : Files, files.target path = .lost e) ∨
      ∃ start ps, ∀ files : Files, files.target path = files.follow start .directory ps := by
  by_cases hzero : '\x00' ∈ path.toList
  · exact .inl ⟨.zeroInName, fun files => by rw [target, if_pos hzero]⟩
  by_cases hlong : Path.limit < path.utf8ByteSize
  · exact .inl ⟨.nameTooLong, fun files => by rw [target, if_neg hzero, if_pos hlong]⟩
  by_cases habsolute : Path.isAbsolute path
  · exact .inr ⟨_, _, fun files => by rw [target, if_neg hzero, if_neg hlong, if_pos habsolute]⟩
  by_cases hempty : ((Path.parts path).reverse.dropWhile (· = "")).reverse = []
  · exact .inl ⟨.notFound, fun files => by rw [target, if_neg hzero, if_neg hlong, if_neg habsolute, if_pos hempty]⟩
  · exact .inr ⟨_, _, fun files => by rw [target, if_neg hzero, if_neg hlong, if_neg habsolute, if_neg hempty]⟩

theorem get?_of_landing?_target {path : String} {place : Place} (h : (files.target path).landing? = some place) :
    files.get? place ≠ some .directory := by
  rcases target_cases path with ⟨e, he⟩ | ⟨start, ps, hfollow⟩
  · rw [he] at h
    cases h
  · rw [hfollow] at h
    exact get?_of_landing? h

theorem target_put_self {path : String} {place : Place} (h : (files.target path).landing? = some place)
    (bytes : List UInt8) : (files.put place (.file bytes)).target path = .found place (.file bytes) := by
  rcases target_cases path with ⟨e, he⟩ | ⟨start, ps, hfollow⟩
  · rw [he] at h
    cases h
  · rw [hfollow] at h ⊢
    exact follow_put_self h bytes

theorem landing?_target_put {place : Place} (hplace : files.get? place ≠ some .directory) (bytes : List UInt8)
    (path : String) : ((files.put place (.file bytes)).target path).landing? = (files.target path).landing? := by
  rcases target_cases path with ⟨e, he⟩ | ⟨start, ps, hfollow⟩
  · rw [he, he]
  · rw [hfollow, hfollow, landing?_follow_put hplace]

/-! ## Writing and reading -/

/-- a path is written to exactly if it has a landing and no slash at its end -/
theorem write_eq_ok_iff {path : String} {bytes : List UInt8} {after : Files} :
    files.write path bytes = .ok after ↔ ∃ place, (files.target path).landing? = some place ∧
      Path.isClosed path = false ∧ after = files.put place (.file bytes) := by
  rw [write]
  cases Path.isClosed path <;> cases files.target path with
  | found place node => cases node <;> simp [Target.landing?, eq_comm]
  | free place => simp [Target.landing?, eq_comm]
  | overlong => simp [Target.landing?]
  | lost e => simp [Target.landing?]

/-- whether a path can be written to does not depend on the bytes -/
theorem exists_write {path : String} {bytes : List UInt8} {after : Files} (h : files.write path bytes = .ok after)
    (bytes' : List UInt8) : ∃ after', files.write path bytes' = .ok after' := by
  obtain ⟨place, hplace, hclosed, -⟩ := write_eq_ok_iff.1 h
  exact ⟨files.put place (.file bytes'), write_eq_ok_iff.2 ⟨place, hplace, hclosed, rfl⟩⟩

/-- **What is written is read back** -/
theorem read_of_write {path : String} {bytes : List UInt8} {after : Files} (h : files.write path bytes = .ok after) :
    after.read path = .ok bytes := by
  obtain ⟨place, hplace, hclosed, rfl⟩ := write_eq_ok_iff.1 h
  simp [read, target_put_self hplace, hclosed]

theorem readText_of_read {path text : String} (h : files.read path = .ok (Utf8.encode text)) :
    files.readText path = .ok text := by
  simp [readText, h, Utf8.decode_encode, Except.bind]

theorem readText_of_write {path text : String} {after : Files} (h : files.write path (Utf8.encode text) = .ok after) :
    after.readText path = .ok text := readText_of_read (read_of_write h)

theorem read_eq_ok_iff {path : String} {bytes : List UInt8} :
    files.read path = .ok bytes ↔
      ∃ place, files.target path = .found place (.file bytes) ∧ Path.isClosed path = false := by
  rw [read]
  cases Path.isClosed path <;> cases files.target path with
  | found place node => cases node <;> simp
  | free place => simp
  | overlong => simp
  | lost e => simp

theorem target_put_ne {path : String} {place other : Place} {old : List UInt8}
    (hplace : files.get? place ≠ some .directory) (hne : other ≠ place) (bytes : List UInt8)
    (h : files.target path = .found other (.file old)) :
    (files.put place (.file bytes)).target path = .found other (.file old) := by
  rcases target_cases path with ⟨e, he⟩ | ⟨start, ps, hfollow⟩
  · rw [he] at h
    cases h
  · rw [hfollow] at h ⊢
    exact follow_put_ne hplace hne bytes h

/-- a file at another place is read as before -/
theorem read_of_write_ne {path other : String} {bytes old : List UInt8} {after : Files}
    (h : files.write path bytes = .ok after) (hread : files.read other = .ok old)
    (hne : (files.target other).landing? ≠ (files.target path).landing?) : after.read other = .ok old := by
  obtain ⟨place, hplace, -, rfl⟩ := write_eq_ok_iff.1 h
  obtain ⟨otherPlace, hother, hclosed⟩ := read_eq_ok_iff.1 hread
  rw [hother, hplace] at hne
  have hdifferent : otherPlace ≠ place := fun heq => hne (heq ▸ rfl)
  exact read_eq_ok_iff.2 ⟨otherPlace, target_put_ne (get?_of_landing?_target hplace) hdifferent bytes hother, hclosed⟩

theorem isOk_write (files : Files) (path : String) (bytes : List UInt8) :
    (files.write path bytes).isOk = ((files.target path).landing?.isSome && !Path.isClosed path) := by
  rw [write]
  cases Path.isClosed path <;> cases files.target path with
  | found place node => cases node <;> rfl
  | free place => rfl
  | overlong => rfl
  | lost e => rfl

/-- after one file is written, just the same paths can be written to as before -/
theorem isOk_write_of_write {path other : String} {bytes bytes' : List UInt8} {after : Files}
    (h : files.write path bytes = .ok after) : (after.write other bytes').isOk = (files.write other bytes').isOk := by
  obtain ⟨place, hplace, -, rfl⟩ := write_eq_ok_iff.1 h
  rw [isOk_write, isOk_write, landing?_target_put (get?_of_landing?_target hplace)]

end LedgerTotals.Files
