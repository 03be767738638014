import FormatRequest.Delivery

/-!
# What is delivered

A request is reported by printing its report or by saving it to a file, and a request for the
version is answered by printing that. The report is a function of the request and the format, so
that the only thing that can fail is to write the file. A file that cannot be opened is not touched.
One that can is emptied, and if it stops taking the report it keeps what it has taken: a report is
rendered as a whole before it is written, but it is not written as a whole or not at all.

Results:
1. `describe_print`, `describe_save`, `describe_failed`, `describe_version`: each case by itself.
2. `describe_saves_iff`: when a file is written, and what is in it.
3. `describe_eq_error_iff`: when a delivery fails.
4. `describe_leaves_iff`: when a file is left behind that was not written to the end.
-/

namespace FormatRequest

/-- `w.FailsWith text cause left`: the writing `w` of `text` fails for the cause. A file that could
not be opened is left alone, and one that could holds the first bytes of the text. -/
inductive Writing.FailsWith (text : String) :
    Writing → WriteFault → Option (List UInt8) → Prop
  | refused {cause : WriteFault} : FailsWith text (.refused cause) cause none
  | brokeOff {cause : WriteFault} {taken : Nat} :
    FailsWith text (.brokeOff cause taken) cause (some (firstBytes text taken))

theorem Writing.FailsWith.ne_done {text : String} {w : Writing} {cause : WriteFault}
    {left : Option (List UInt8)} (h : w.FailsWith text cause left) : w ≠ .done := by
  rintro rfl
  cases h

theorem Writing.eq_done_or_failsWith (text : String) (w : Writing) :
    w = .done ∨ ∃ cause left, w.FailsWith text cause left := by
  cases w with
  | done => exact .inl rfl
  | refused cause => exact .inr ⟨cause, none, .refused⟩
  | brokeOff cause taken => exact .inr ⟨cause, _, .brokeOff⟩

theorem Writing.failsWith_some_iff {text : String} {w : Writing} {cause : WriteFault}
    {bytes : List UInt8} :
    w.FailsWith text cause (some bytes) ↔
      ∃ taken, w = .brokeOff cause taken ∧ bytes = firstBytes text taken := by
  constructor
  · intro h
    cases h
    exact ⟨_, rfl, rfl⟩
  · rintro ⟨taken, rfl, rfl⟩
    exact .brokeOff

theorem Delivery.ended_eq_error_iff {path text : String} {w : Writing} {fault : DeliveryFault} :
    ended path text w = .error fault ↔
      fault.path = path ∧ w.FailsWith text fault.cause fault.left := by
  constructor
  · intro h
    cases w with
    | done => cases h
    | refused cause =>
      cases h
      exact ⟨rfl, .refused⟩
    | brokeOff cause taken =>
      cases h
      exact ⟨rfl, .brokeOff⟩
  · obtain ⟨path', cause, left⟩ := fault
    rintro ⟨rfl, hfails⟩
    cases hfails with
    | refused => rfl
    | brokeOff => rfl

/-- The file that a delivery writes. -/
def savedBy : Except DeliveryFault Delivered → Option SavedFile
  | .ok d => d.saved
  | .error _ => none

/-- The file that a delivery leaves behind without having written it to the end. -/
def leftBy : Except DeliveryFault Delivered → Option Remnant
  | .ok _ => none
  | .error fault => fault.remnant

namespace Request

variable {r : Request} {folder : Folder} {format : ReportFormat} {path : String}

theorem describe_print (h : r.version = false) :
    r.describe folder format none = .ok { text := r.render format } := by
  unfold describe delivery
  rw [h]
  rfl

theorem describe_of_path (h : r.version = false) :
    r.describe folder format (some path) =
      Delivery.ended path (r.render format) (folder path (r.render format)) := by
  unfold describe delivery
  rw [h]
  rfl

theorem describe_save (h : r.version = false) (hwrite : folder path (r.render format) = .done) :
    r.describe folder format (some path) =
      .ok { text := Delivery.savedText path, saved := some ⟨path, r.render format⟩ } := by
  rw [describe_of_path h, hwrite]
  rfl

theorem describe_failed (h : r.version = false) {cause : WriteFault} {left : Option (List UInt8)}
    (hwrite : (folder path (r.render format)).FailsWith (r.render format) cause left) :
    r.describe folder format (some path) = .error ⟨path, cause, left⟩ := by
  rw [describe_of_path h]
  exact Delivery.ended_eq_error_iff.mpr ⟨rfl, hwrite⟩

theorem describe_version (h : r.version = true) (path : Option String) :
    r.describe folder format path = .ok { text := versionText } := by
  unfold describe delivery
  rw [h]
  rfl

/-- A file is written where it takes the whole report, and holds the text that is printed
otherwise. -/
theorem describe_saves_iff {file : SavedFile} :
    savedBy (r.describe folder format (some path)) = some file ↔
      r.version = false ∧ file.path = path ∧
        r.describe folder format none = .ok { text := file.content } ∧
        folder path file.content = .done := by
  cases hversion : r.version with
  | true =>
    rw [describe_version hversion]
    exact iff_of_false nofun fun h => Bool.noConfusion h.1
  | false =>
    rw [describe_print hversion]
    rcases Writing.eq_done_or_failsWith (r.render format) (folder path (r.render format)) with
      hwrite | ⟨cause, left, hwrite⟩
    · rw [describe_save hversion hwrite]
      constructor
      · intro h
        obtain rfl := Option.some.inj h
        exact ⟨rfl, rfl, rfl, hwrite⟩
      · rintro ⟨_, rfl, htext, _⟩
        have hcontent : r.render format = file.content :=
          congrArg Delivered.text (Except.ok.inj htext)
        rw [hcontent]
        rfl
    · rw [describe_failed hversion hwrite]
      refine iff_of_false nofun fun ⟨_, _, htext, hdone⟩ => hwrite.ne_done ?_
      have hcontent : r.render format = file.content :=
        congrArg Delivered.text (Except.ok.inj htext)
      rw [hcontent, hdone]

/-- A delivery fails where its file does not take the whole report, and nowhere else. -/
theorem describe_eq_error_iff {path : Option String} {fault : DeliveryFault} :
    r.describe folder format path = .error fault ↔
      r.version = false ∧ path = some fault.path ∧
        (folder fault.path (r.render format)).FailsWith (r.render format) fault.cause
          fault.left := by
  cases hversion : r.version with
  | true =>
    rw [describe_version hversion]
    exact iff_of_false nofun fun h => Bool.noConfusion h.1
  | false =>
    cases path with
    | none =>
      rw [describe_print hversion]
      exact iff_of_false nofun fun h => absurd h.2.1.symm (Option.some_ne_none _)
    | some path =>
      rw [describe_of_path hversion, Delivery.ended_eq_error_iff, Option.some.injEq]
      constructor
      · rintro ⟨rfl, hfails⟩
        exact ⟨rfl, rfl, hfails⟩
      · rintro ⟨_, rfl, hfails⟩
        exact ⟨rfl, hfails⟩

/-- A file is left behind where writing the text breaks off that is printed otherwise, and holds
what it took of it. -/
theorem describe_leaves_iff {remnant : Remnant} :
    leftBy (r.describe folder format (some path)) = some remnant ↔
      r.version = false ∧ remnant.path = path ∧
        ∃ text cause taken, r.describe folder format none = .ok { text } ∧
          folder path text = .brokeOff cause taken ∧ remnant.bytes = firstBytes text taken := by
  cases hversion : r.version with
  | true =>
    rw [describe_version hversion]
    exact iff_of_false nofun fun h => Bool.noConfusion h.1
  | false =>
    rw [describe_print hversion]
    constructor
    · intro h
      cases hdescribe : r.describe folder format (some path) with
      | ok delivered =>
        rw [hdescribe] at h
        cases h
      | error fault =>
        rw [hdescribe] at h
        obtain ⟨_, hpath, hfails⟩ := describe_eq_error_iff.mp hdescribe
        obtain ⟨bytes, hleft, rfl⟩ := Option.map_eq_some_iff.mp h
        rw [hleft, Writing.failsWith_some_iff] at hfails
        obtain ⟨taken, hwrite, rfl⟩ := hfails
        obtain rfl := Option.some.inj hpath
        exact ⟨rfl, rfl, _, _, taken, rfl, hwrite, rfl⟩
    · rintro ⟨_, rfl, text, cause, taken, htext, hwrite, hbytes⟩
      have hrender : r.render format = text := congrArg Delivered.text (Except.ok.inj htext)
      subst hrender
      have hfails : (folder remnant.path (r.render format)).FailsWith (r.render format) cause
          (some remnant.bytes) := Writing.failsWith_some_iff.mpr ⟨taken, hwrite, hbytes⟩
      rw [describe_failed hversion hfails]
      rfl

end Request

/-- A disk on which no file has room for more than sixteen bytes. -/
def exCrowded : Folder := fun _ text => .within 16 text

end FormatRequest
