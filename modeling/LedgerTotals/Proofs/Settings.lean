/-
Which settings files are accepted, and why that matters to the totals.

A settings file is checked in this order: its text must be that of a settings file, it must be for this program, its
form must be known, and it must name trees, none of them twice. The last check walks the names with those seen so far
in hand, and it is the only place where repeated names are stopped: the pass over a page adds up a tree as often as the
tree is listed.

- `SettingsFile.accept_eq_ok_iff`: the files that are accepted are the valid ones (`Valid`);
- `SettingsFile.accept_eq_error_iff`: what is told of any other is the first thing that is wrong with it (`Refuses`),
  and a repeated name that is told is the earliest one (`FirstRepeat`).

Main result: `Configuration.load_counts_once`.
-/
import LedgerTotals.Jobs
import LedgerTotals.Proofs.Files
import LedgerTotals.Proofs.Rollup.Aggregations

namespace LedgerTotals

namespace SettingsFile

/-! ## The first name that is repeated -/

/-- the name is in the list twice, and no name is repeated in front of its second place -/
def FirstRepeat (name : String) (names : List String) : Prop :=
  ∃ front back, names = front ++ name :: back ∧ front.Nodup ∧ name ∈ front

/-- no name is repeated, and none of them has been seen -/
def Fresh (seen names : List String) : Prop := names.Nodup ∧ ∀ name ∈ names, name ∉ seen

theorem fresh_nil (seen : List String) : Fresh seen [] := ⟨List.nodup_nil, nofun⟩

/-- the first name is new, and the others are so once it has been seen -/
theorem fresh_cons {seen names : List String} {head : String} :
    Fresh seen (head :: names) ↔ head ∉ seen ∧ Fresh (head :: seen) names := by
  unfold Fresh
  rw [List.nodup_cons, List.forall_mem_cons]
  constructor
  · rintro ⟨⟨hnot, hnodup⟩, hhead, hnew⟩
    refine ⟨hhead, hnodup, fun name hname hseen => ?_⟩
    rcases List.mem_cons.1 hseen with rfl | hseen
    · exact hnot hname
    · exact hnew name hname hseen
  · rintro ⟨hhead, hnodup, hnew⟩
    refine ⟨⟨fun hmem => hnew head hmem List.mem_cons_self, hnodup⟩, hhead, ?_⟩
    exact fun name hname hseen => hnew name hname (List.mem_cons_of_mem head hseen)

theorem repeatedAfter?_eq_none_iff {seen names : List String} : repeatedAfter? seen names = none ↔ Fresh seen names := by
  induction names generalizing seen with
  | nil => exact iff_of_true rfl (fresh_nil seen)
  | cons head names ih =>
    rw [repeatedAfter?, fresh_cons, ← ih]
    by_cases hhead : head ∈ seen <;> simp [hhead]

/-- the name that is found has been seen, or stands among the names in front of it, and all of these are new -/
theorem repeatedAfter?_eq_some_iff {seen names : List String} {name : String} :
    repeatedAfter? seen names = some name ↔
      ∃ front back, names = front ++ name :: back ∧ Fresh seen front ∧ (name ∈ seen ∨ name ∈ front) := by
  induction names generalizing seen with
  | nil => simp [repeatedAfter?]
  | cons head names ih =>
    rw [repeatedAfter?]
    split_ifs with hhead
    · constructor
      · intro h
        obtain rfl := Option.some.inj h
        exact ⟨[], names, rfl, fresh_nil seen, .inl hhead⟩
      · rintro ⟨front, back, hsplit, hfresh, -⟩
        cases front with
        | nil => rw [(List.cons.inj hsplit).1]
        | cons other front =>
          obtain ⟨rfl, -⟩ := List.cons.inj hsplit
          exact absurd hhead (fresh_cons.1 hfresh).1
    · -- the first name goes over from those that are left to those that have been seen
      have hmoves : ∀ front, name ∈ head :: seen ∨ name ∈ front ↔ name ∈ seen ∨ name ∈ head :: front := by
        intro front
        rw [List.mem_cons, List.mem_cons, or_assoc, or_left_comm]
      rw [ih]
      constructor
      · rintro ⟨front, back, rfl, hfresh, hname⟩
        exact ⟨head :: front, back, rfl, fresh_cons.2 ⟨hhead, hfresh⟩, (hmoves front).1 hname⟩
      · rintro ⟨front, back, hsplit, hfresh, hname⟩
        cases front with
        | nil =>
          obtain ⟨rfl, -⟩ := List.cons.inj hsplit
          exact absurd (hname.resolve_right List.not_mem_nil) hhead
        | cons other front =>
          obtain ⟨rfl, rfl⟩ := List.cons.inj hsplit
          exact ⟨front, back, rfl, (fresh_cons.1 hfresh).2, (hmoves front).2 hname⟩

theorem repeated?_eq_none_iff {names : List String} : repeated? names = none ↔ names.Nodup := by
  simp [repeated?, repeatedAfter?_eq_none_iff, Fresh]

theorem repeated?_eq_some_iff {names : List String} {name : String} :
    repeated? names = some name ↔ FirstRepeat name names := by
  simp [repeated?, repeatedAfter?_eq_some_iff, Fresh, FirstRepeat]

theorem FirstRepeat.not_nodup {name : String} {names : List String} (h : FirstRepeat name names) : ¬ names.Nodup := by
  rw [← repeated?_eq_none_iff, repeated?_eq_some_iff.2 h]
  exact Option.some_ne_none name

theorem FirstRepeat.ne_nil {name : String} {names : List String} (h : FirstRepeat name names) : names ≠ [] := by
  rintro rfl
  exact h.not_nodup List.nodup_nil

/-! ## Validity -/

/-- the file is for this program and of a known form, and it names trees without repetition -/
structure Valid (f : SettingsFile) : Prop where
  program : f.program = programName
  version : f.version ≤ newestVersion
  nonempty : f.settings.trees ≠ []
  distinct : f.settings.trees.Nodup

/-- what is told of a file that is not valid: what is wrong with it while all that is checked before is right -/
inductive Refuses (f : SettingsFile) : Refusal → Prop
  | otherProgram (hprogram : f.program ≠ programName) : Refuses f (.otherProgram f.program)
  | newerVersion (hprogram : f.program = programName) (hversion : newestVersion < f.version) :
    Refuses f (.newerVersion f.version)
  | noTrees (hprogram : f.program = programName) (hversion : f.version ≤ newestVersion)
    (htrees : f.settings.trees = []) : Refuses f .noTrees
  | repeatedTree (hprogram : f.program = programName) (hversion : f.version ≤ newestVersion) {name : String}
    (hname : FirstRepeat name f.settings.trees) : Refuses f (.repeatedTree name)

theorem Refuses.not_valid {f : SettingsFile} {r : Refusal} (h : f.Refuses r) : ¬ f.Valid := by
  intro hvalid
  cases h with
  | otherProgram hprogram => exact hprogram hvalid.program
  | newerVersion _ hversion => exact hversion.not_ge hvalid.version
  | noTrees _ _ htrees => exact hvalid.nonempty htrees
  | repeatedTree _ _ hname => exact hname.not_nodup hvalid.distinct

/-- the checks one after the other, up to the first that fails -/
theorem accept_cases (f : SettingsFile) :
    (f.Valid ∧ f.accept = .ok f.settings) ∨ ∃ r, f.Refuses r ∧ f.accept = .error r := by
  unfold accept
  split_ifs with hprogram hversion htrees
  · exact .inr ⟨_, .otherProgram hprogram, rfl⟩
  · exact .inr ⟨_, .newerVersion (not_not.1 hprogram) hversion, rfl⟩
  · exact .inr ⟨_, .noTrees (not_not.1 hprogram) (not_lt.1 hversion) htrees, rfl⟩
  · cases hname : repeated? f.settings.trees with
    | some name =>
      exact .inr ⟨_, .repeatedTree (not_not.1 hprogram) (not_lt.1 hversion) (repeated?_eq_some_iff.1 hname), rfl⟩
    | none => exact .inl ⟨⟨not_not.1 hprogram, not_lt.1 hversion, htrees, repeated?_eq_none_iff.1 hname⟩, rfl⟩

/-- **Valid files and no others are accepted** -/
theorem accept_eq_ok_iff {f : SettingsFile} {settings : Settings} :
    f.accept = .ok settings ↔ f.Valid ∧ settings = f.settings := by
  rcases accept_cases f with ⟨hvalid, haccept⟩ | ⟨r, hrefuses, haccept⟩
  · rw [haccept, Except.ok.injEq, eq_comm]
    exact (and_iff_right hvalid).symm
  · rw [haccept]
    constructor
    · intro h
      cases h
    · rintro ⟨hvalid, -⟩
      exact absurd hvalid hrefuses.not_valid

/-- no file is refused in two ways -/
theorem Refuses.accept_eq {f : SettingsFile} {r : Refusal} (h : f.Refuses r) : f.accept = .error r := by
  unfold accept
  cases h with
  | otherProgram hprogram => rw [if_pos hprogram]
  | newerVersion hprogram hversion => rw [if_neg (not_not.2 hprogram), if_pos hversion]
  | noTrees hprogram hversion htrees =>
    rw [if_neg (not_not.2 hprogram), if_neg (not_lt.2 hversion), if_pos htrees]
  | repeatedTree hprogram hversion hname =>
    rw [if_neg (not_not.2 hprogram), if_neg (not_lt.2 hversion), if_neg hname.ne_nil, repeated?_eq_some_iff.2 hname]

theorem accept_eq_error_iff {f : SettingsFile} {r : Refusal} : f.accept = .error r ↔ f.Refuses r := by
  constructor
  · intro h
    rcases accept_cases f with ⟨-, haccept⟩ | ⟨r', hrefuses, haccept⟩
    · rw [haccept] at h
      cases h
    · rw [haccept] at h
      obtain rfl := Except.error.inj h
      exact hrefuses
  · exact Refuses.accept_eq

end SettingsFile

namespace Configuration

/-! ## Settings that are loaded -/

/-- the fault of a settings file with this text: it is not a settings file at all, or else not a valid one -/
inductive Faulty (path text : String) : Fault → Prop
  | unreadable {e : Json.JsonError} (hjson : SettingsFile.ofJson text = .error e) :
    Faulty path text ((Fault.of e.message).within ("Failed to parse config file at " ++ path))
  | refused {f : SettingsFile} {r : SettingsFile.Refusal} (hjson : SettingsFile.ofJson text = .ok f)
    (hrefuses : f.Refuses r) : Faulty path text (.of r.message)

section Load

variable {files : Files} {path text : String} (htext : files.readText path = .ok text)
include htext

/-- a path with a text leads to a file, so all depends on the text -/
theorem load_of_readText : load files path = (ofText path text).map fun settings => ⟨some path, settings⟩ := by
  have hfile : files.isFile path = true := by
    unfold Files.readText at htext
    unfold Files.isFile
    cases hread : files.read path with
    | ok bytes => rfl
    | error e =>
      rw [hread] at htext
      cases htext
  rw [load, if_pos hfile, htext]

theorem load_eq_ok_iff {c : Configuration} : load files path = .ok c ↔
    ∃ f, SettingsFile.ofJson text = .ok f ∧ f.Valid ∧ c = ⟨some path, f.settings⟩ := by
  rw [load_of_readText htext, ofText]
  cases hjson : SettingsFile.ofJson text with
  | error e => simp [Except.map]
  | ok f =>
    cases haccept : f.accept with
    | ok settings =>
      obtain ⟨hvalid, rfl⟩ := SettingsFile.accept_eq_ok_iff.1 haccept
      simp [haccept, hvalid, Except.mapError, Except.map, eq_comm]
    | error r =>
      have hrefuses : f.Refuses r := SettingsFile.accept_eq_error_iff.1 haccept
      simp [haccept, hrefuses.not_valid, Except.mapError, Except.map]

theorem load_eq_error_iff {fault : Fault} : load files path = .error fault ↔ Faulty path text fault := by
  rw [load_of_readText htext, ofText]
  constructor
  · intro h
    cases hjson : SettingsFile.ofJson text with
    | error e =>
      simp only [hjson, Except.map, Except.error.injEq] at h
      rw [← h]
      exact .unreadable hjson
    | ok f =>
      cases haccept : f.accept with
      | ok settings => simp [hjson, haccept, Except.mapError, Except.map] at h
      | error r =>
        simp only [hjson, haccept, Except.mapError, Except.map, Except.error.injEq] at h
        rw [← h]
        exact .refused hjson (SettingsFile.accept_eq_error_iff.1 haccept)
  · intro h
    cases h with
    | unreadable hjson => simp only [hjson, Except.map]
    | refused hjson hrefuses =>
      have haccept := SettingsFile.accept_eq_error_iff.2 hrefuses
      simp only [hjson, haccept, Except.mapError, Except.map]

/-- settings that are loaded list no tree twice -/
theorem nodup_trees_of_load {c : Configuration} (h : load files path = .ok c) : c.settings.trees.Nodup := by
  obtain ⟨f, -, hvalid, rfl⟩ := (load_eq_ok_iff htext).1 h
  exact hvalid.distinct

end Load

/-- **A settings file is accepted exactly if it is valid, and then no row counts twice.** Of any other file the first
thing is told that is wrong with it. With settings that are accepted, and any policies put in place of theirs, a pass
over any page adds up each of its trees at most once, and so each of its rows -/
theorem load_counts_once (files : Files) {path text : String} (htext : files.readText path = .ok text) :
    (∀ c, load files path = .ok c ↔
      ∃ f, SettingsFile.ofJson text = .ok f ∧ f.Valid ∧ c = ⟨some path, f.settings⟩) ∧
    (∀ fault, load files path = .error fault ↔ Faulty path text fault) ∧
    (∀ c, load files path = .ok c → ∀ (overrides : Overrides) (page : Page),
      let settings := (c.withOverrides overrides).settings
      Rollup.CountsOnce settings.options page settings.trees (Job.renderPage settings page)) := by
  refine ⟨fun c => load_eq_ok_iff htext, fun fault => load_eq_error_iff htext, ?_⟩
  intro c hc overrides page settings
  -- policies have no say in which trees are listed
  have hnodup : c.settings.trees.Nodup := nodup_trees_of_load htext hc
  exact Rollup.renderPage_countsOnce hnodup settings.options page

def plainSettings : Settings := ⟨["assigned", "imported"], .prepend, .zero, false⟩

def plainText : String :=
  "\x7b\"app_name\": \"rollup\", \"config_version\": 1, \"trees\": [\"assigned\", \"imported\"]\x7d"

/-- two names are repeated, and the one that is repeated first is not the one that is listed first -/
def repeatingTrees : List String := ["imported", "assigned", "assigned", "imported"]

def repeatingText : String :=
  "\x7b\"app_name\": \"rollup\", \"config_version\": 1, " ++
    "\"trees\": [\"imported\", \"assigned\", \"assigned\", \"imported\"]\x7d"

/-- a directory with two settings files -/
def shelf : Files :=
  ⟨[(["plain.json"], .file (Utf8.encode plainText)), (["repeating.json"], .file (Utf8.encode repeatingText))]⟩

/-- policies other than those in the files -/
def strict : Overrides := ⟨some .replace, some .reject⟩

/-- a page with two trees of one name and none of the other -/
def namesakes : Page :=
  ⟨[⟨"assigned", some .empty, [.new "4100" [.ofAmount "1.5", .ofAmount "-2"]]⟩,
    ⟨"assigned", none, [.new "4100" [.ofAmount "3"]]⟩], some .empty⟩

theorem load_counts_once_shelf :
    Rollup.CountsOnce (plainSettings.withOverrides strict).options namesakes ["assigned", "imported"]
      (Job.renderPage (plainSettings.withOverrides strict) namesakes) ∧
    load shelf "repeating.json" = .error (.of "The tree 'assigned' is named more than once in the config file") := by
  have hplain : shelf.readText "plain.json" = .ok plainText := Files.readText_of_read rfl
  have hrepeating : shelf.readText "repeating.json" = .ok repeatingText := Files.readText_of_read rfl
  constructor
  · obtain ⟨haccepted, -, honce⟩ := load_counts_once shelf hplain
    have hjson : SettingsFile.ofJson plainText = .ok (.ofSettings plainSettings) := by decide +kernel
    have hvalid : (SettingsFile.ofSettings plainSettings).Valid := ⟨rfl, le_rfl, by decide, by decide⟩
    exact honce _ ((haccepted _).2 ⟨_, hjson, hvalid, rfl⟩) strict namesakes
  · obtain ⟨-, hrefused, -⟩ := load_counts_once shelf hrepeating
    have hjson : SettingsFile.ofJson repeatingText =
        .ok (.ofSettings { plainSettings with trees := repeatingTrees }) := by decide +kernel
    have hfirst : SettingsFile.FirstRepeat "assigned" repeatingTrees :=
      ⟨["imported", "assigned"], ["imported"], rfl, by decide, by decide⟩
    exact (hrefused _).2 (.refused hjson (.repeatedTree rfl le_rfl hfirst))

end Configuration

end LedgerTotals
