import Mathlib
import EffectTiming.Proofs.Trace.File
import EffectTiming.Trace.Golden

/-!
# Golden files are read back

A trace that was kept in a file is loaded from it as it was, and a comparison with the file has
nothing to say, if the path gives back what is written to it (`Store.GivesBack`). Regular files that
may be read do so: the path leads to the same file before and after it was written, since only
folders are passed on the way and the file is none. A device takes what is written and keeps
nothing, and a file may be closed to readers.
-/

namespace EffectTiming

namespace Store

variable {s s' : Store} {loc other here found : Location} {entry : Entry} {path text : String}

/-! ### Entries -/

theorem lookup_filter_of_ne (h : other ≠ loc) (entries : List (Location × Entry)) :
    (entries.filter (·.1 ≠ loc)).lookup other = entries.lookup other := by
  induction entries with
  | nil => rfl
  | cons e entries ih =>
    obtain ⟨key, value⟩ := e
    by_cases hkey : key = loc
    · have hother : (other == key) = false := by simpa [hkey] using h
      rw [List.filter_cons_of_neg (by simpa using hkey), ih, List.lookup_cons, hother]
    · rw [List.filter_cons_of_pos (by simpa using hkey), List.lookup_cons, List.lookup_cons, ih]

theorem get?_set_of_ne (h : other ≠ loc) : (s.set loc entry).get? other = s.get? other := by
  have hother : (other == loc) = false := by simpa using h
  rw [get?, get?, set, List.lookup_cons, hother, lookup_filter_of_ne h]

theorem get?_set_self (h : s.get? loc ≠ some .folder) :
    (s.set loc entry).get? loc = some entry := by
  rw [get?] at h ⊢
  split at h
  · exact absurd rfl h
  · rename_i hup
    rw [if_neg hup, set, List.lookup_cons_self, Option.some_or]

/-! ### Paths -/

theorem get?_of_pass (h : s.pass here = .ok ()) : s.get? here = some .folder := by
  rw [pass] at h
  split at h
  · assumption
  · cases h
  · cases h

/-- A way through folders is not changed by what is put where no folder is. -/
theorem locate_set (hloc : s.get? loc ≠ some .folder) {names : List String}
    (h : s.locate here names = .ok found) : (s.set loc entry).locate here names = .ok found := by
  induction names generalizing here with
  | nil => exact h
  | cons name names ih =>
    rw [locate] at h ⊢
    split at h
    · cases h
    · rename_i hpass
      have hne : here ≠ loc := by
        rintro rfl
        exact hloc (get?_of_pass hpass)
      have hpass' : (s.set loc entry).pass here = .ok () := by
        rwa [pass, get?_set_of_ne hne]
      rw [hpass']
      simp only
      split_ifs at h ⊢ with hstay hup hlong
      · exact ih h
      · exact ih h
      · exact ih h

theorem locatePath_set (hloc : s.get? loc ≠ some .folder) (h : s.locatePath path = .ok found) :
    (s.set loc entry).locatePath path = .ok found := by
  rw [locatePath] at h ⊢
  split at h
  · cases h
  · split_ifs at h ⊢ with hempty
    exact locate_set hloc h

/-- A file can be put where a path leads that does not end with a slash, unless a folder is
there. -/
theorem locateNew_eq_ok_iff : s.locateNew path = .ok loc ↔
    path.endsWith "/" = false ∧ s.locatePath path = .ok loc ∧ s.get? loc ≠ some .folder := by
  rw [locateNew]
  constructor
  · intro h
    split at h
    · dsimp only at h
      split at h
      · cases h
      · obtain ⟨folder, -, h⟩ := exists_ok_of_bind h
        obtain ⟨-, -, h⟩ := exists_ok_of_bind h
        cases h
    · rename_i hslash
      obtain ⟨found, hfound, h⟩ := exists_ok_of_bind h
      split at h
      · cases h
      · rename_i hfolder
        cases h
        exact ⟨by simpa using hslash, hfound, hfolder⟩
  · rintro ⟨hslash, hpath, hfolder⟩
    simp only [hslash, hpath, hfolder, ok_bind]
    rfl

theorem write_of_absent (h : s.locateNew path = .ok loc)
    (habsent : s.get? loc = none) (text : String) :
    s.write path text = .ok (s.set loc (.file text s.newAccess)) := by
  simp only [write, put, h, habsent]
  rfl

/-- Writing leaves the text in a regular file, new or not, or passes it to a device. -/
theorem write_cases (h : s.write path text = .ok s') : ∃ loc, s.locateNew path = .ok loc ∧
    ((∃ d, s.get? loc = some (.device d)) ∨
      ∃ access, s' = s.set loc (.file text access) ∧
        (s.get? loc = none ∧ access = s.newAccess ∨ ∃ old, s.get? loc =
          some (.file old access))) := by
  obtain ⟨⟨_, _⟩, hput, rfl⟩ := exists_ok_of_map h
  rw [put] at hput
  split at hput
  · cases hput
  · rename_i found hnew
    obtain ⟨-, -, hfolder⟩ := locateNew_eq_ok_iff.mp hnew
    refine ⟨found, hnew, ?_⟩
    split at hput
    · rename_i old access hold
      split_ifs at hput
      cases hput
      exact Or.inr ⟨access, rfl, Or.inr ⟨old, hold⟩⟩
    · rename_i d hd
      exact Or.inl ⟨d, hd⟩
    · rename_i hfile hdevice
      have habsent : s.get? found = none := by
        cases hentry : s.get? found with
        | none => rfl
        | some entry =>
          cases entry with
          | file old access => exact absurd hentry (hfile old access)
          | folder => exact absurd hentry hfolder
          | device d => exact absurd hentry (hdevice d)
      cases hput
      exact Or.inr ⟨s.newAccess, rfl, Or.inl ⟨habsent, rfl⟩⟩

/-! ### What is given back -/

/-- A regular file that may be read is at the location, or would be created there. -/
def isReadable (s : Store) (loc : Location) : Bool :=
  match s.get? loc with
  | none => s.newAccess.readable
  | some (.file _ access) => access.readable
  | some .folder | some (.device _) => false

/-- What is written to a path, once its folders are made, is read from it. -/
def GivesBack (s : Store) (path : String) : Prop :=
  ∀ folders text s', s.makeFoldersFor path = .ok folders → folders.write path text = .ok s' →
    s'.read path = .ok text

theorem read_of_write (h : s.write path text = .ok s')
    (hreadable : ∀ loc, s.locatePath path = .ok loc → s.isReadable loc = true) :
    s'.read path = .ok text := by
  obtain ⟨loc, hnew, hwritten⟩ := write_cases h
  obtain ⟨-, hpath, hfolder⟩ := locateNew_eq_ok_iff.mp hnew
  have hopen := hreadable loc hpath
  rw [isReadable] at hopen
  rcases hwritten with ⟨d, hd⟩ | ⟨access, rfl, hbefore⟩
  · rw [hd] at hopen
    cases hopen
  · have haccess : access.readable = true := by
      rcases hbefore with ⟨hnone, rfl⟩ | ⟨old, hold⟩
      · rwa [hnone] at hopen
      · rwa [hold] at hopen
    simp only [read, locatePath_set hfolder hpath, get?_set_self hfolder, haccess, if_true]

/-- Regular files that may be read give back what is written. -/
theorem givesBack_of_readable (h : ∀ folders loc, s.makeFoldersFor path = .ok folders →
    folders.locatePath path = .ok loc → folders.isReadable loc = true) : s.GivesBack path := by
  intro folders text s' hfolders hwrite
  exact read_of_write hwrite fun loc hloc => h folders loc hfolders hloc

end Store

namespace Trace

variable {t : Trace} {s s' : Store} {path : String}

@[simp]
theorem diff_self (t : Trace) : t.diff t = "" := by
  rw [diff, if_pos rfl]

/-- A trace is kept if its folders can be made, if it can be written and if the file can be. -/
theorem keep_eq_ok_iff : t.keep s path = (s', .ok ()) ↔ ∃ folders text,
    s.makeFoldersFor path = .ok folders ∧ t.text = .ok text ∧ folders.write path text = .ok s' := by
  rw [keep]
  cases s.makeFoldersFor path with
  | error e => simp
  | ok folders =>
    cases t.text with
    | error u => simp
    | ok text => cases hwrite : folders.write path text <;> simp [hwrite]

theorem compareWith_of_load (h : load s path = .ok t) (test : String) :
    t.compareWith s path test = [] := by
  simp only [compareWith, h, diff_self, if_true]

/-- A trace without stray bytes that was kept at a path is loaded from there as it was, and a
comparison has nothing to say, if the path gives back what is written to it. -/
theorem keep_roundTrip (h : t.keep s path = (s', .ok ())) (hback : s.GivesBack path)
    (htext : t.isText = true) :
    load s' path = .ok t ∧ ∀ test, t.matchFile s' path test false = (s', []) := by
  obtain ⟨folders, text, hfolders, hwritten, hwrite⟩ := keep_eq_ok_iff.mp h
  have hload : load s' path = .ok t := by
    simp only [load, hback folders text s' hfolders hwrite, read_text hwritten,
      shown_of_isText htext]
    rfl
  refine ⟨hload, fun test => ?_⟩
  rw [matchFile, if_neg (by decide), compareWith_of_load hload]

/-- A trace with what has to be escaped and with what is left out. -/
def sketch : Trace :=
  { name := "a \"b\"\n\u2028é"
    samples := some [{ time := "0s", phase := "before" },
      { time := "1.5s", phase := "active", iteration := "2", progress := some 0.25,
        beforeFlag := true }] }

theorem keep_roundTrip_sketch :
    ∃ s', sketch.keep {} "y//./z.json" = (s', .ok ()) ∧
      s'.locatePath "y//./z.json" = .ok ["y", "z.json"] ∧ load s' "y//./z.json" = .ok sketch ∧
      sketch.matchFile s' "y//./z.json" "TestSketch" false = (s', []) := by
  obtain ⟨text, htext⟩ : ∃ text, sketch.text = .ok text := ⟨_, rfl⟩
  have hfolders : ({} : Store).makeFoldersFor "y//./z.json" =
    .ok { entries := [(["y"], .folder)] } := rfl
  have hpath : ({ entries := [(["y"], .folder)] } : Store).locatePath "y//./z.json" =
    .ok ["y", "z.json"] := rfl
  have hnew : ({ entries := [(["y"], .folder)] } : Store).locateNew "y//./z.json" =
      .ok ["y", "z.json"] :=
    Store.locateNew_eq_ok_iff.mpr ⟨by cbv, hpath, by decide⟩
  have hback : ({} : Store).GivesBack "y//./z.json" := by
    apply Store.givesBack_of_readable
    intro folders loc hfolders' hloc
    cases hfolders.symm.trans hfolders'
    cases hpath.symm.trans hloc
    rfl
  have hkeep := keep_eq_ok_iff.mpr ⟨_, _, hfolders, htext, Store.write_of_absent hnew rfl text⟩
  obtain ⟨hload, hmatch⟩ := keep_roundTrip hkeep hback rfl
  exact ⟨_, hkeep, rfl, hload, hmatch "TestSketch"⟩

/-- The null device takes a trace and does not give it back. -/
theorem keep_nullDevice :
    ({ name := "kept" } : Trace).keep {} "/dev/null" = ({}, .ok ()) ∧
      load {} "/dev/null" = .error (.unreadable (.malformed .unexpectedEnd)) ∧
      ({ name := "kept" } : Trace).matchFile {} "/dev/null" "TestKept" false =
        ({}, [.fatal
          "failed to load snapshot: invalid snapshot JSON: unexpected end of JSON input"]) := by
  have hnew : ({} : Store).locateNew "/dev/null" = .ok ["/", "dev", "null"] :=
    Store.locateNew_eq_ok_iff.mpr ⟨by cbv, rfl, by decide⟩
  have hwrite : ∀ text, ({} : Store).write "/dev/null" text = .ok {} := by
    intro text
    simp only [Store.write, Store.put, hnew]
    rfl
  exact ⟨keep_eq_ok_iff.mpr ⟨{}, _, rfl, rfl, hwrite _⟩, rfl, rfl⟩

end Trace

end EffectTiming
