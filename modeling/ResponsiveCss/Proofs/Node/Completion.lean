import ResponsiveCss.Proofs.Bracket
import ResponsiveCss.Proofs.Node.Depth
import ResponsiveCss.Proofs.Text.Compact
import ResponsiveCss.Proofs.Token.Extension

/-!
# Recovery closes what is open

What is open at the end of an input is closed there, the innermost first. Closing parentheses
behind the input do the same, one for each call or group that is open: a closing parenthesis
where something is open keeps the items that the run ends with (`Node.Progress.step_closing`),
whether it closes a frame or counts down a part that is being skipped.

**Main result.** `ParsedStyle.parse_completed`: an input whose strings and calls to `url` are
closed is read as the input with these parentheses written out. All that is recorded at the end
is what was open, so if nothing else is wrong the completed input is accepted.
-/

namespace ResponsiveCss

open Text ResponsiveCss.Bracket

namespace Node
namespace Progress

/-- The items do not depend on the issues. -/
theorem closeAll_items (frames : List Frame) :
    ∀ (level : Level) (issues other : List Issue),
      (closeAll level issues frames).1 = (closeAll level other frames).1 := by
  induction frames with
  | nil => intro level issues other; rfl
  | cons frame frames ih => intro level issues other; exact ih _ _ _

/-- A closing parenthesis where something is open does what the end would do, and leaves no
issue. -/
theorem step_closing (limit : Option Nat) {p : Progress} (hopen : p.depth ≠ 0) {token : Token}
    (hkind : token.kind = .closing) :
    (p.step limit token).finish.1 = p.finish.1 ∧ (p.step limit token).issues = p.issues := by
  unfold step
  split
  next hskipping =>
    unfold accept
    rw [hkind]
    show (p.leave token.start).finish.1 = p.finish.1 ∧ (p.leave token.start).issues = p.issues
    unfold leave
    split
    next hframes =>
      rw [depth, hframes, hskipping] at hopen
      exact absurd rfl hopen
    next frame frames hframes =>
      refine ⟨?_, rfl⟩
      unfold finish
      rw [hframes]
      exact closeAll_items frames _ _ _
  next => exact ⟨rfl, rfl⟩

/-- As many closing parentheses as are open do what the end would do, and leave no issue. -/
theorem finish_closers (limit : Option Nat) {closers : List Token}
    (hkind : ∀ token ∈ closers, token.kind = .closing) :
    ∀ {p : Progress}, closers.length = p.depth →
      (closers.foldl (step limit) p).finish = (p.finish.1, p.issues) := by
  induction closers with
  | nil =>
    intro p hlength
    have hframes : p.frames = [] := List.length_eq_zero_iff.mp (by
      rw [depth, List.length_nil] at hlength
      omega)
    rw [List.foldl_nil, finish, hframes]
    rfl
  | cons token rest ih =>
    intro p hlength
    obtain ⟨htoken, hrest⟩ := List.forall_mem_cons.mp hkind
    rw [List.length_cons] at hlength
    have hopen : p.depth ≠ 0 := by omega
    have hdepth : rest.length = (p.step limit token).depth := by
      rw [depth_step, htoken]
      show rest.length = p.depth - 1
      omega
    obtain ⟨hitems, hissues⟩ := step_closing limit hopen htoken
    rw [List.foldl_cons, ih hrest hdepth, hitems, hissues]

/-! ## Unclosed parentheses are found at the end only -/

/-- A token leaves one issue at most, and never that of an unclosed parenthesis. -/
theorem issues_step_cases (limit : Option Nat) (p : Progress) (token : Token) :
    (p.step limit token).issues = p.issues ∨ ∃ fault, fault ≠ .unclosedParen ∧
      (p.step limit token).issues = p.issues ++ [⟨fault, token.start⟩] := by
  have henter : ∀ opener, (p.enter limit opener token.start).issues = p.issues ∨
      ∃ fault, fault ≠ .unclosedParen ∧
        (p.enter limit opener token.start).issues = p.issues ++ [⟨fault, token.start⟩] := by
    intro opener
    unfold enter
    split
    · exact Or.inl rfl
    · exact Or.inr ⟨.tooDeep, by decide, rfl⟩
  unfold step
  split
  next =>
    unfold accept
    cases token.kind with
    | function name => exact henter _
    | opening => exact henter _
    | closing =>
      show (p.leave token.start).issues = _ ∨ _
      unfold leave
      split
      · exact Or.inr ⟨.unexpectedCloseParen, by decide, rfl⟩
      · exact Or.inl rfl
    | comma =>
      left
      show p.separate.issues = p.issues
      unfold separate
      split
      · rfl
      · rfl
    | quoted raw =>
      simp only
      split
      · exact Or.inl rfl
      · exact Or.inr ⟨.unterminatedString, by decide, rfl⟩
    | _ => exact Or.inl rfl
  next => exact Or.inl rfl

theorem fault_ne_unclosedParen (limit : Option Nat) (tokens : List Token) :
    ∀ {p : Progress}, (∀ issue ∈ p.issues, issue.fault ≠ .unclosedParen) →
      ∀ issue ∈ (tokens.foldl (step limit) p).issues, issue.fault ≠ .unclosedParen := by
  induction tokens with
  | nil => intro p h; exact h
  | cons token rest ih =>
    intro p h
    rw [List.foldl_cons]
    refine ih ?_
    rcases issues_step_cases limit p token with hsame | ⟨fault, hfault, hmore⟩
    · rw [hsame]
      exact h
    · rw [hmore]
      exact forall_mem_append_singleton h hfault

end Progress

/-- Closing parentheses behind the tokens, as many as calls and groups are open, change none of
the items. Where unclosed parentheses are all that is wrong, nothing is wrong any more. -/
theorem build_append_closers {tokens closers : List Token}
    (hkind : ∀ token ∈ closers, token.kind = .closing)
    (hlength : closers.length = depthFrom 0 (tokens.map (·.kind))) :
    (build (tokens ++ closers)).1 = (build tokens).1 ∧
      ((∀ issue ∈ (build tokens).2, issue.fault = .unclosedParen) →
        (build (tokens ++ closers)).2 = []) := by
  have hrun : build (tokens ++ closers) = ((build tokens).1,
      (tokens.foldl (Progress.step (some nestingLimit)) .start).issues) := by
    have hdepth := Progress.depth_foldl (some nestingLimit) tokens .start
    rw [build, buildWithin, List.foldl_append]
    exact Progress.finish_closers _ hkind (hlength.trans hdepth.symm)
  rw [hrun]
  refine ⟨rfl, fun honly => List.eq_nil_iff_forall_not_mem.mpr fun issue hissue => ?_⟩
  -- an issue of the run is among those in the end, and it is none of an unclosed parenthesis
  have hend : issue ∈ (build tokens).2 := (Progress.issues_closeAll _ _ _).subset hissue
  exact Progress.fault_ne_unclosedParen _ tokens (fun _ hnone => absurd hnone List.not_mem_nil)
    issue hissue (honly issue hend)

end Node

theorem Token.scanFrom_closers (count : Nat) :
    ∀ (start : Nat) (signContext : Bool),
      (∀ token ∈ scanFrom start signContext (List.replicate count ')'), token.kind = .closing) ∧
        (scanFrom start signContext (List.replicate count ')')).length = count := by
  induction count with
  | zero =>
    intro start signContext
    rw [List.replicate_zero, scanFrom]
    exact ⟨fun _ hnone => absurd hnone List.not_mem_nil, rfl⟩
  | succ count ih =>
    intro start signContext
    have hfirst : scanFrom start signContext (List.replicate (count + 1) ')')
        = ⟨.closing, start, ")"⟩ :: scanFrom (start + 1) false (List.replicate count ')') := by
      rw [List.replicate_succ, scanFrom]
      rfl
    obtain ⟨hkind, hlength⟩ := ih (start + 1) false
    rw [hfirst, List.length_cons, hlength]
    exact ⟨List.forall_mem_cons.mpr ⟨rfl, hkind⟩, rfl⟩

namespace ParsedStyle

/-- How many calls and groups are open at the end of a style value. -/
def openAtEnd (raw : String) : Nat := depthFrom 0 ((Token.scan (trim raw)).map (·.kind))

/-- The style value with a closing parenthesis for each call and group that is open at its
end. -/
def completed (raw : String) : String := raw ++ .ofList (List.replicate (openAtEnd raw) ')')

variable {raw : String}

theorem trim_completed (htrim : trim raw = raw) : trim (completed raw) = completed raw := by
  by_cases hne : raw.toList = []
  · rw [String.toList_eq_nil_iff.mp hne]
    decide +kernel
  · have hparens : ∀ c ∈ List.replicate (openAtEnd raw) ')', isBlank c = false := by
      intro c hc
      rw [List.eq_of_mem_replicate hc]
      decide
    have hcompact := (Compact.of_trim_eq htrim hne).append_no_blank hparens
    have hwhole : completed raw
        = .ofList (raw.toList ++ List.replicate (openAtEnd raw) ')' ++ []) := by
      rw [List.append_nil, String.ofList_append, String.ofList_toList, completed]
    rw [hwhole, hcompact.trim fun _ hnone => absurd hnone List.not_mem_nil, List.append_nil]

/-- The tokens of a completed value are those of the value and the closing parentheses. -/
theorem scan_completed (htrim : trim raw = raw)
    (hclosed : ∀ token ∈ Token.scan raw, token.kind.isClosed = true) :
    ∃ closers, Token.scan (trim (completed raw)) = Token.scan raw ++ closers ∧
      (∀ token ∈ closers, token.kind = .closing) ∧ closers.length = openAtEnd raw := by
  have hends : Ends (List.replicate (openAtEnd raw) ')') := by
    cases openAtEnd raw with
    | zero => exact ends_nil
    | succ count => exact ends_cons (Or.inr (Or.inr rfl)) _
  have hscan := Token.scanFrom_append hends hclosed
  rw [trim_completed htrim, completed, Token.scan, String.toList_append, String.toList_ofList]
  exact ⟨_, hscan, Token.scanFrom_closers (openAtEnd raw) _ _⟩

/-- **Recovery closes what is open.** Take a trimmed input whose strings and calls to `url` are
closed. With a closing parenthesis for each call and group that is open at its end, at whatever
depth, it parses to the same style in every mode and with all units. If these are all that is
wrong with it, the strict reader accepts the completed input. -/
theorem parse_completed (units : UnitTable) (mode : Mode) (htrim : trim raw = raw)
    (hclosed : ∀ token ∈ Token.scan raw, token.kind.isClosed = true) :
    parse units mode (completed raw) = parse units mode raw ∧
      ((∀ issue ∈ (tree raw).2, issue.fault = .unclosedParen) →
        tryParse units mode (completed raw) = .ok (parse units mode raw)) := by
  obtain ⟨closers, hscan, hkind, hlength⟩ := scan_completed htrim hclosed
  rw [openAtEnd, htrim] at hlength
  obtain ⟨hitems, hissues⟩ := Node.build_append_closers hkind hlength
  have htree : tree (completed raw) = Node.build (Token.scan raw ++ closers) := by
    rw [tree, hscan]
  have hparse : parse units mode (completed raw) = parse units mode raw := by
    rw [parse, parse, htree, hitems, tree, htrim]
  refine ⟨hparse, fun honly => ?_⟩
  rw [tree, htrim] at honly
  rw [tryParse, firstIssue?, htree, hissues honly, hparse]
  rfl

/-- A call in a group in a call, with an operator that waits for its operand. -/
theorem parse_completed_max_group_min :
    trim "a max(1px, (2x + min(#b.5, 3px -" = "a max(1px, (2x + min(#b.5, 3px -" ∧
      (∀ token ∈ Token.scan "a max(1px, (2x + min(#b.5, 3px -", token.kind.isClosed = true) ∧
      (∀ issue ∈ (tree "a max(1px, (2x + min(#b.5, 3px -").2, issue.fault = .unclosedParen) ∧
      completed "a max(1px, (2x + min(#b.5, 3px -" = "a max(1px, (2x + min(#b.5, 3px -)))" ∧
      tryParse .standard .default "a max(1px, (2x + min(#b.5, 3px -)))"
        = .ok (parse .standard .default "a max(1px, (2x + min(#b.5, 3px -") ∧
      parse .standard .default "a max(1px, (2x + min(#b.5, 3px -"
        = { values := ["max(1px, ((2 * var(--gap)) + min(rgba(var(--b-color-rgb), 0.05), 3px -)))"]
            mods := ["a"]
            all :=
              ["a", "max(1px, ((2 * var(--gap)) + min(rgba(var(--b-color-rgb), 0.05), 3px -)))"]
            value := "a max(1px, ((2 * var(--gap)) + min(rgba(var(--b-color-rgb), 0.05), 3px -)))"
            color := "" } := by
  have htrim : trim "a max(1px, (2x + min(#b.5, 3px -" = "a max(1px, (2x + min(#b.5, 3px -" := by
    decide +kernel
  have hclosed : ∀ token ∈ Token.scan "a max(1px, (2x + min(#b.5, 3px -",
      token.kind.isClosed = true := by decide +kernel
  have honly : ∀ issue ∈ (tree "a max(1px, (2x + min(#b.5, 3px -").2,
      issue.fault = .unclosedParen := by decide +kernel
  have hcompleted : completed "a max(1px, (2x + min(#b.5, 3px -"
      = "a max(1px, (2x + min(#b.5, 3px -)))" := by decide +kernel
  refine ⟨htrim, hclosed, honly, hcompleted, ?_, by decide +kernel⟩
  rw [← hcompleted]
  exact (parse_completed .standard .default htrim hclosed).2 honly

end ParsedStyle
end ResponsiveCss
