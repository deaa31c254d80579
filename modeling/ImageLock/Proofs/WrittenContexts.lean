/-
Contexts as texts. The address of a repository is cut at its first number sign, and what is behind
it at the first colon. Showing a context writes the pieces with their separators again, without
those that have nothing behind them.
-/
import ImageLock.Proofs.Pieces
import ImageLock.Proofs.WrittenLocks

namespace ImageLock

namespace Text

/-- A text in front of its first separator and behind it; without a separator all of it is in
front. -/
structure CutsInto (sep : Char) (text front behind : String) : Prop where
  first : sep ∉ front.toList
  whole : text = front ∧ behind = "" ∨ text.toList = front.toList ++ sep :: behind.toList

theorem cutsInto_iff {sep : Char} {text front behind : String} :
    (cut sep text).getD (text, "") = (front, behind) ↔ CutsInto sep text front behind := by
  have uncut {text : String} (whole : sep ∉ text.toList) : cut sep text = none := by
    rw [cut, cutAt_of_notMem whole, Option.map_none]
  have parted {text front behind : String} (first : sep ∉ front.toList)
      (whole : text.toList = front.toList ++ sep :: behind.toList) :
      cut sep text = some (front, behind) := by
    simp [cut, whole, cutAt_append first]
  constructor
  · intro pieces
    by_cases there : sep ∈ text.toList
    · obtain ⟨before, after, whole, first⟩ := List.eq_append_cons_of_mem there
      have pair : cut sep text = some (.ofList before, .ofList after) :=
        parted (by simpa using first) (by simpa using whole)
      rw [pair, Option.getD_some] at pieces
      cases pieces
      exact ⟨by simpa using first, .inr (by simpa using whole)⟩
    · rw [uncut there, Option.getD_none] at pieces
      cases pieces
      exact ⟨there, .inl ⟨rfl, rfl⟩⟩
  · rintro ⟨first, ⟨rfl, rfl⟩ | whole⟩
    · rw [uncut first, Option.getD_none]
    · rw [parted first whole, Option.getD_some]

/-- A lead without separators is the lead of what is in front. -/
theorem CutsInto.startsWith {sep : Char} {text front behind lead : String}
    (cuts : CutsInto sep text front behind) (whole : sep ∉ lead.toList) :
    startsWith lead text = startsWith lead front := by
  obtain ⟨-, ⟨rfl, -⟩ | pieces⟩ := cuts
  · rfl
  · rw [Text.startsWith, Text.startsWith, pieces, Bool.eq_iff_iff, List.isPrefixOf_iff_prefix,
      List.isPrefixOf_iff_prefix]
    refine ⟨fun leads => ?_, fun leads => leads.trans (List.prefix_append _ _)⟩
    rcases List.prefix_or_prefix_of_prefix leads (List.prefix_append _ _) with inside | ⟨more, same⟩
    · exact inside
    · -- What it had beyond the front would begin with the separator.
      rw [← same, List.prefix_append_right_inj] at leads
      cases more with
      | nil => exact ⟨[], by rw [← same, List.append_nil, List.append_nil]⟩
      | cons c more =>
          obtain rfl := (List.cons_prefix_cons.mp leads).1
          exact absurd (same ▸ List.mem_append_right _ List.mem_cons_self) whole

end Text

namespace Context

open Text

theorem ofAddress_eq {address : String} {c : Context} :
    ofAddress address = c ↔ c.kind = .git ∧
      ∃ fragment, CutsInto '#' address c.source fragment ∧
        CutsInto ':' fragment c.reference c.path := by
  obtain ⟨kind, source, reference, path⟩ := c
  cases first : (cut '#' address).getD (address, "") with
  | mk front fragment =>
      cases second : (cut ':' fragment).getD (fragment, "") with
      | mk name directory =>
          have made : ofAddress address = ⟨.git, front, name, directory⟩ := by
            simp only [ofAddress, first, second]
          rw [made]
          constructor
          · rintro ⟨⟩
            exact ⟨rfl, fragment, cutsInto_iff.mp first, cutsInto_iff.mp second⟩
          · rintro ⟨rfl, fragment', one, other⟩
            cases first.symm.trans (cutsInto_iff.mpr one)
            cases second.symm.trans (cutsInto_iff.mpr other)
            rfl

/-- An address has both separators, the first of them, or none. -/
theorem ofAddress_eq_forms {address : String} {c : Context} :
    ofAddress address = c ↔ c.kind = .git ∧ '#' ∉ c.source.toList ∧ ':' ∉ c.reference.toList ∧
      (address = c.source ∧ c.reference = "" ∧ c.path = "" ∨
        address = c.source ++ "#" ++ c.reference ∧ c.path = "" ∨
        address = c.source ++ "#" ++ c.reference ++ ":" ++ c.path) := by
  rw [ofAddress_eq]
  refine and_congr_right fun _ => ⟨?_, ?_⟩
  · rintro ⟨fragment, ⟨bare, whole⟩, plain, rest⟩
    refine ⟨bare, plain, ?_⟩
    rcases whole with ⟨rfl, rfl⟩ | whole
    · rcases rest with ⟨none, empty⟩ | rest
      · exact .inl ⟨rfl, none.symm, empty⟩
      · simp at rest
    · rcases rest with ⟨rfl, empty⟩ | rest
      · exact .inr (.inl ⟨String.toList_inj.mp (by simp [whole]), empty⟩)
      · exact .inr (.inr (String.toList_inj.mp (by simp [whole, rest])))
  · rintro ⟨bare, plain, ⟨rfl, none, empty⟩ | ⟨rfl, empty⟩ | rfl⟩
    · exact ⟨"", ⟨bare, .inl ⟨rfl, rfl⟩⟩, plain, .inl ⟨none.symm, empty⟩⟩
    · exact ⟨c.reference, ⟨bare, .inr (by simp)⟩, plain, .inl ⟨rfl, empty⟩⟩
    · exact ⟨c.reference ++ ":" ++ c.path, ⟨bare, .inr (by simp)⟩, plain, .inr (by simp)⟩

/-- What may stand behind a context that is shown without another one being meant: separators with
nothing behind them. -/
def idleEndings (c : Context) : List String :=
  if c.path ≠ "" then [""] else if c.reference ≠ "" then ["", ":"] else ["", "#", "#:"]

theorem empty_mem_idleEndings (c : Context) : "" ∈ c.idleEndings := by
  unfold idleEndings
  repeat' split
  all_goals exact List.mem_cons_self

/-- The addresses of a repository are what it is shown as, up to separators at the end. -/
theorem ofAddress_eq_iff {address : String} {c : Context} :
    ofAddress address = c ↔ c.kind = .git ∧ '#' ∉ c.source.toList ∧ ':' ∉ c.reference.toList ∧
      ∃ ending ∈ c.idleEndings, address = c.display ++ ending := by
  rw [ofAddress_eq_forms]
  refine and_congr_right fun git => and_congr_right fun _ => and_congr_right fun _ => ?_
  by_cases empty : c.path = ""
  · by_cases none : c.reference = ""
    · simp [display, idleEndings, git, empty, none, String.append_assoc]
    · simp [display, idleEndings, git, empty, none, String.append_assoc]
  · simp [display, idleEndings, git, empty, String.append_assoc]

/-- A repository is read from what it is shown as. -/
theorem ofAddress_display {address : String} {c : Context} (parsed : ofAddress address = c) :
    ofAddress c.display = c := by
  obtain ⟨git, bare, plain, -⟩ := ofAddress_eq_iff.mp parsed
  exact ofAddress_eq_iff.mpr ⟨git, bare, plain, "", c.empty_mem_idleEndings, by simp⟩

/-! Sources with the kind that is given. -/

theorem validate_ok {c c' : Context} : c.validate = .ok c' ↔ c.source ≠ "" ∧ c = c' := by
  by_cases empty : c.source = "" <;> simp [validate, empty]

/-- A source is an address or a directory, as its type says, and without a type as it begins. -/
theorem parse_ok {source : String} {type : Option String} {c : Context} :
    parse source type = .ok c ↔ c.source ≠ "" ∧
      (ofAddress source = c ∧
          (type = some "git" ∨ type = none ∧ Text.startsWith "git://" source = true) ∨
        ofDirectory source = c ∧
          (type = some "local" ∨ type = none ∧ Text.startsWith "git://" source = false)) := by
  unfold parse
  split
  case h_1 => grind [validate_ok]
  case h_2 => grind [validate_ok]
  case h_3 other noAddress noDirectory => grind
  case h_4 => split <;> grind [validate_ok]

theorem ofDirectory_display {source : String} {c : Context} (read : ofDirectory source = c) :
    ofDirectory c.display = c := by
  subst read
  rfl

/-- What a repository is shown as begins as its address does. -/
theorem startsWith_display {address lead : String} {c : Context} (read : ofAddress address = c)
    (whole : '#' ∉ lead.toList) :
    Text.startsWith lead c.display = Text.startsWith lead address := by
  obtain ⟨-, _, cuts, -⟩ := ofAddress_eq.mp read
  obtain ⟨-, _, shown, -⟩ := ofAddress_eq.mp (ofAddress_display read)
  rw [cuts.startsWith whole, shown.startsWith whole]

theorem parse_display_typed {source : String} {type : Option String} {c : Context}
    (parsed : parse source type = .ok c) : parse c.display (some c.kind.name) = .ok c := by
  obtain ⟨filled, ⟨address, -⟩ | ⟨directory, -⟩⟩ := parse_ok.mp parsed
  · have git : c.kind.name = "git" := by rw [(ofAddress_eq.mp address).1, ContextKind.name]
    exact parse_ok.mpr ⟨filled, .inl ⟨ofAddress_display address, .inl (congrArg some git)⟩⟩
  · have here : c.kind.name = "local" := by rw [← directory, ofDirectory, ContextKind.name]
    exact parse_ok.mpr ⟨filled, .inr ⟨ofDirectory_display directory, .inl (congrArg some here)⟩⟩

theorem parse_display_untyped {source : String} {c : Context}
    (parsed : parse source none = .ok c) : parse c.display none = .ok c := by
  obtain ⟨filled, ⟨address, begins⟩ | ⟨directory, begins⟩⟩ := parse_ok.mp parsed
  · have shown : Text.startsWith "git://" c.display = Text.startsWith "git://" source :=
      startsWith_display address (by decide)
    exact parse_ok.mpr
      ⟨filled, .inl ⟨ofAddress_display address, .inr ⟨rfl, by simpa [shown] using begins⟩⟩⟩
  · have shown : c.display = source := directory ▸ rfl
    exact parse_ok.mpr
      ⟨filled, .inr ⟨ofDirectory_display directory, .inr ⟨rfl, by simpa [shown] using begins⟩⟩⟩

/-- What a context is shown as is read as this context again, with its own type and also without
one if it was read without one. The source of a repository has no number sign and its reference no
colon, and it was read from what it is shown as, up to separators with nothing behind them. The
document of a context, whichever it is, is read as this context. -/
theorem parse_display {source : String} {type : Option String} {c : Context}
    (parsed : parse source type = .ok c) :
    c.source ≠ "" ∧
      (c.kind = .git → '#' ∉ c.source.toList ∧ ':' ∉ c.reference.toList ∧
        ∃ ending ∈ c.idleEndings, source = c.display ++ ending) ∧
      parse c.display (some c.kind.name) = .ok c ∧
      (type = none → parse c.display none = .ok c) ∧
      ∀ written : Context, read written.toNode = .ok written := by
  obtain ⟨filled, made⟩ := parse_ok.mp parsed
  refine ⟨filled, fun git => ?_, parse_display_typed parsed,
    fun untyped => parse_display_untyped (untyped ▸ parsed), read_toNode⟩
  rcases made with ⟨address, -⟩ | ⟨directory, -⟩
  · exact (ofAddress_eq_iff.mp address).2
  · cases (congrArg Context.kind directory).trans git

/-- The reference is empty, and the directory has separators of its own. -/
theorem parse_display_nested :
    let source := "git://github.com/some/repo#:sub#dir:here"
    let c : Context := ⟨.git, "git://github.com/some/repo", "", "sub#dir:here"⟩
    parse source none = .ok c ∧ (∃ ending ∈ c.idleEndings, source = c.display ++ ending) ∧
      parse c.display (some "git") = .ok c ∧ parse c.display none = .ok c ∧
      read c.toNode = .ok c := by
  have parsed : parse "git://github.com/some/repo#:sub#dir:here" none =
      .ok ⟨.git, "git://github.com/some/repo", "", "sub#dir:here"⟩ := rfl
  obtain ⟨-, repository, typed, untyped, documents⟩ := parse_display parsed
  exact ⟨parsed, (repository rfl).2.2, typed, untyped rfl, documents _⟩

end Context
end ImageLock
