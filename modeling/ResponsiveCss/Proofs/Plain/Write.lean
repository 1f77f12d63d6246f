import Mathlib.Data.List.Forall2
import ResponsiveCss.Proofs.Plain.Grammar

/-!
# The text of a plain tree

A sequence of items is written with a space between any two of them, the arguments
of a call with a comma and a space, and operands and operators in turn. This is how
the grammar joins them as well, so a tree whose parts are written as plain texts is
written as the plain text that they make up. Inside arithmetic no `calc` is added.
-/

namespace ResponsiveCss

open Text

/-! ## Joining texts -/

theorem spaced_cons (text : List Char) (texts : List (List Char)) :
    spaced (text :: texts) = text ++ texts.flatMap fun t => ' ' :: t := by
  induction texts generalizing text with
  | nil => rw [spaced_singleton, List.flatMap_nil, List.append_nil]
  | cons next texts ih =>
    rw [spaced, List.intercalate_cons_cons, List.append_assoc]
    show text ++ (' ' :: spaced (next :: texts)) = _
    rw [ih next, List.flatMap_cons]
    rfl

/-- One more text comes behind a separator. -/
theorem intercalate_append_singleton (separator : List Char) {texts : List (List Char)}
    (hne : texts ≠ []) (last : List Char) :
    separator.intercalate (texts ++ [last])
      = separator.intercalate texts ++ separator ++ last := by
  induction texts with
  | nil => exact absurd rfl hne
  | cons first texts ih =>
    cases texts with
    | nil =>
      rw [List.singleton_append, List.intercalate_cons_cons, List.intercalate_singleton,
        List.intercalate_singleton]
    | cons next texts =>
      rw [List.cons_append, List.intercalate_cons_of_ne_nil (by simp), ih (List.cons_ne_nil _ _),
        List.intercalate_cons_cons]
      simp only [List.append_assoc]

theorem forall_mem_intercalate {α : Type} {P : α → Prop} {separator : List α}
    {lists : List (List α)} (hseparator : ∀ a ∈ separator, P a)
    (h : ∀ list ∈ lists, ∀ a ∈ list, P a) : ∀ a ∈ separator.intercalate lists, P a := by
  induction lists with
  | nil => exact fun a ha => absurd ha (by simp)
  | cons list lists ih =>
    have hlist := h list List.mem_cons_self
    cases lists with
    | nil =>
      rw [List.intercalate_singleton]
      exact hlist
    | cons next lists =>
      have hrest := ih fun other hother => h other (List.mem_cons_of_mem list hother)
      rw [List.intercalate_cons_cons]
      intro a ha
      rcases List.mem_append.mp ha with ha | ha
      · exact (List.mem_append.mp ha).elim (hlist a) (hseparator a)
      · exact hrest a ha

/-- What stands behind a sequence belongs to its last text. -/
theorem spaced_append_last (texts : List (List Char)) (text tail : List Char) :
    spaced (texts ++ [text ++ tail]) = spaced (texts ++ [text]) ++ tail := by
  by_cases hne : texts = []
  · rw [hne, List.nil_append, List.nil_append, spaced_singleton, spaced_singleton]
  · rw [spaced, spaced, intercalate_append_singleton _ hne, intercalate_append_singleton _ hne,
      List.append_assoc _ text]

theorem listed_ofList (texts : List (List Char)) :
    ", ".intercalate (texts.map String.ofList) = .ofList (listed texts) := by
  have hid : String.toList ∘ String.ofList = id := funext fun _ => String.toList_ofList
  have hlisted : (String.ofList (listed texts)).toList = listed texts := String.toList_ofList
  rw [← String.toList_inj, String.toList_intercalate, hlisted, List.map_map, hid, List.map_id,
    listed]

theorem Piece.toList_append_texts (texts : List (List Char)) :
    ∀ written : String, written ≠ "" →
      (Piece.append written (texts.map fun t => .text (.ofList t))).toList
        = written.toList ++ texts.flatMap fun t => ' ' :: t := by
  induction texts with
  | nil => intro written _; exact (List.append_nil _).symm
  | cons text texts ih =>
    intro written hwritten
    have hnext : written ++ " " ++ String.ofList text ≠ "" := by
      intro h
      have hlist := congrArg String.toList h
      simp at hlist
    show (Piece.append (if written = "" then _ else written ++ " " ++ String.ofList text)
      _).toList = _
    rw [if_neg hwritten, ih _ hnext]
    simp

/-- Texts make a sequence with a space between any two of them. -/
theorem Piece.sequence_texts {texts : List (List Char)} (h : ∀ t ∈ texts, t ≠ []) :
    Piece.sequence (texts.map fun t => .text (.ofList t)) = .ofList (spaced texts) := by
  rw [← String.toList_inj, String.toList_ofList]
  cases texts with
  | nil => rfl
  | cons text texts =>
    have hne : String.ofList text ≠ "" := by
      intro hempty
      have hlist := congrArg String.toList hempty
      rw [String.toList_ofList] at hlist
      exact h text List.mem_cons_self hlist
    show (Piece.append (String.ofList text) _).toList = _
    rw [Piece.toList_append_texts texts _ hne, String.toList_ofList, spaced_cons]

/-- Operands and operators in turn, with spaces between them, are the sum. -/
theorem intercalate_interleave (first : List Char) (steps : List (Operator × List Char)) :
    " ".intercalate (interleave ((first :: steps.map Prod.snd).map String.ofList)
        ((steps.map Prod.fst).map fun op => op.symbol.toString))
      = .ofList (Sum.text ⟨first, steps⟩) := by
  rw [← String.toList_inj, String.toList_intercalate]
  induction steps generalizing first with
  | nil => simp [interleave, Sum.text]
  | cons step steps ih =>
    have hrest := ih step.2
    obtain ⟨tail, htail⟩ : ∃ tail, interleave ((step.2 :: steps.map Prod.snd).map String.ofList)
        ((steps.map Prod.fst).map fun op => op.symbol.toString) = .ofList step.2 :: tail := by
      cases steps <;> exact ⟨_, rfl⟩
    rw [htail] at hrest
    simp only [List.map_cons, interleave] at htail ⊢
    rw [htail, List.intercalate_cons_cons, List.map_cons, List.intercalate_cons_cons,
      ← List.map_cons, hrest]
    simp [Sum.text]

namespace Writer

variable {w : Writer} {ctx : Context}

/-- The items are written as the text. -/
def WritesArg (w : Writer) (ctx : Context) (text : List Char) (items : List Node) : Prop :=
  Piece.sequence (items.map (w.piece ctx)) = .ofList text

/-- A call is written as its name and its arguments. -/
theorem css_call {name : List Char} {texts : List (List Char)} {args : List (List Node)}
    (h : List.Forall₂ (w.WritesArg (argContext ctx (.ofList name))) texts args) :
    w.css ctx (.call (.ofList name) args) = .ofList (name ++ '(' :: listed texts ++ [')']) := by
  have htexts : w.argTexts (argContext ctx (.ofList name)) args = texts.map String.ofList := by
    rw [argTexts_eq_map]
    induction h with
    | nil => rfl
    | cons hfirst _ ih => rw [List.map_cons, List.map_cons, ih, hfirst]
  rw [css, htexts, listed_ofList, ← String.toList_inj]
  simp

theorem writesArg_spaced {texts : List (List Char)} {nodes : List Node}
    (h : List.Forall₂ (fun text node => text ≠ [] ∧ node.isComma = false ∧
      w.css ctx node = .ofList text) texts nodes) : w.WritesArg ctx (spaced texts) nodes := by
  have hpieces : nodes.map (w.piece ctx) = texts.map fun t => .text (.ofList t) := by
    induction h with
    | nil => rfl
    | @cons text node _ _ hfirst _ ih =>
      have hpiece : w.piece ctx node = .text (.ofList text) := by
        unfold piece
        rw [if_neg (by rw [hfirst.2.1]; exact Bool.false_ne_true), hfirst.2.2]
      rw [List.map_cons, List.map_cons, ih, hpiece]
  have hne : ∀ t ∈ texts, t ≠ [] := by
    clear hpieces
    induction h with
    | nil => exact fun t ht => absurd ht (by simp)
    | cons hfirst _ ih =>
      intro t ht
      rcases List.mem_cons.mp ht with rfl | ht
      · exact hfirst.1
      · exact ih t ht
  rw [WritesArg, hpieces]
  exact Piece.sequence_texts hne

/-- An item alone is written as it is. -/
theorem writesArg_singleton {text : List Char} {node : Node} (hne : text ≠ [])
    (hcomma : node.isComma = false) (h : w.css ctx node = .ofList text) :
    w.WritesArg ctx text [node] := by
  have hspaced : w.WritesArg ctx (spaced [text]) [node] :=
    writesArg_spaced (.cons ⟨hne, hcomma, h⟩ .nil)
  rw [spaced_singleton] at hspaced
  exact hspaced

end Writer
end ResponsiveCss
