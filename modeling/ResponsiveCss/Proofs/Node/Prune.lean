import ResponsiveCss.Node.Build
import ResponsiveCss.Token.Scan

/-!
# The nesting limit only prunes

The tree that is built within a limit is the tree that is built without one, with every call
and group at the limit emptied (`Node.build_eq_prune`). What stands before, around and behind
such a call or group is read as if there were no limit.

The two builders are run side by side (`Progress.Tracks`). As long as no more than `limit`
calls and groups are open, the state of the one is the pruned state of the other. Beyond the
limit the one without limit goes on to build, in frames inside a frame at the limit, while the
other only counts: its count is the number of these frames, and it has the emptied node
already. Both come out at the same closing parenthesis, where the count is back at zero and
the node that has been built is pruned to the emptied one.
-/

namespace ResponsiveCss
namespace Node

mutual

/-- The node with every call and group that is inside `room` others emptied. -/
def prune (room : Nat) : Node → Node
  | .call name args =>
    match room with
    | 0 => .call name [[]]
    | room + 1 => .call name (pruneArgs room args)
  | .group items =>
    match room with
    | 0 => .group []
    | room + 1 => .group (pruneItems room items)
  | .expr operands operators => .expr (pruneItems room operands) operators
  | .number value unit => .number value unit
  | .word name => .word name
  | .color raw => .color raw
  | .property name => .property name
  | .text raw => .text raw
  | .comma => .comma

def pruneItems (room : Nat) : List Node → List Node
  | [] => []
  | item :: rest => item.prune room :: pruneItems room rest

def pruneArgs (room : Nat) : List (List Node) → List (List Node)
  | [] => []
  | arg :: rest => pruneItems room arg :: pruneArgs room rest

end

theorem pruneItems_eq_map (room : Nat) (items : List Node) :
    pruneItems room items = items.map (prune room) := by
  induction items with
  | nil => rfl
  | cons item rest ih => rw [pruneItems, ih, List.map_cons]

theorem pruneArgs_eq_map (room : Nat) (args : List (List Node)) :
    pruneArgs room args = args.map fun arg => arg.map (prune room) := by
  induction args with
  | nil => rfl
  | cons arg rest ih => rw [pruneArgs, ih, pruneItems_eq_map, List.map_cons]

/-! ### Levels -/

def Pending.prune (room : Nat) : Pending → Pending
  | .idle => .idle
  | .complete operands operators => .complete (operands.map (Node.prune room)) operators
  | .dangling operands operators => .dangling (operands.map (Node.prune room)) operators

theorem Pending.items_prune (room : Nat) (pending : Pending) :
    (pending.prune room).items = pending.items.map (Node.prune room) := by
  cases pending with
  | idle => rfl
  | complete operands operators =>
    rcases operands with _ | ⟨first, _ | ⟨second, rest⟩⟩ <;> rcases operators with _ | ⟨op, more⟩ <;>
      simp [Pending.prune, Pending.items, Node.prune, pruneItems_eq_map]
  | dangling operands operators =>
    simp [Pending.prune, Pending.items, Node.prune, pruneItems_eq_map]

namespace Level

def prune (room : Nat) (level : Level) : Level :=
  ⟨level.items.map (Node.prune room), level.pending.prune room⟩

theorem close_prune (room : Nat) (level : Level) :
    (level.prune room).close = level.close.map (Node.prune room) := by
  rw [close, close, List.map_append, ← Pending.items_prune]
  rfl

theorem addOperand_prune (room : Nat) (level : Level) (node : Node) :
    (level.prune room).addOperand (node.prune room) = (level.addOperand node).prune room := by
  obtain ⟨items, pending⟩ := level
  cases pending with
  | dangling operands operators => simp [prune, addOperand, Pending.prune]
  | idle => simp [prune, addOperand, Pending.prune, close, Pending.items]
  | complete operands operators =>
    have hclose := close_prune room ⟨items, .complete operands operators⟩
    unfold prune at hclose
    simp only [Pending.prune] at hclose
    simp only [prune, addOperand, Pending.prune, hclose]
    simp

theorem addOperator_prune (room : Nat) (level : Level) (op : Operator) :
    (level.prune room).addOperator op = (level.addOperator op).prune room := by
  have hoperand := addOperand_prune room level (.text op.symbol.toString)
  rw [Node.prune] at hoperand
  obtain ⟨items, pending⟩ := level
  cases pending with
  | complete operands operators => rfl
  | idle => exact hoperand
  | dangling operands operators => exact hoperand

end Level

/-! ### Open calls and groups -/

namespace Opener

def prune (room : Nat) : Opener → Opener
  | .call name args => .call name (args.map fun arg => arg.map (Node.prune room))
  | .group => .group

/-- What is left of the call or group where it is emptied. -/
def emptied : Opener → Node
  | .call name _ => .call name [[]]
  | .group => .group []

theorem prune_close_zero (opener : Opener) (items : List Node) :
    (opener.close items).prune 0 = opener.emptied := by
  cases opener <;> simp [close, emptied, Node.prune]

theorem prune_close_succ (room : Nat) (opener : Opener) (items : List Node) :
    (opener.close items).prune (room + 1)
      = (opener.prune room).close (items.map (Node.prune room)) := by
  cases opener <;> simp [close, prune, Node.prune, pruneItems_eq_map, pruneArgs_eq_map]

end Opener

/-- The frames with everything in them pruned; all of them are within the limit. -/
def pruneFrames (limit : Nat) : List Frame → List Frame
  | [] => []
  | frame :: frames =>
    ⟨frame.opener.prune (limit - (frames.length + 1)), frame.position,
      frame.outer.prune (limit - frames.length)⟩ :: pruneFrames limit frames

theorem length_pruneFrames (limit : Nat) (frames : List Frame) :
    (pruneFrames limit frames).length = frames.length := by
  induction frames with
  | nil => rfl
  | cons frame frames ih => rw [pruneFrames, List.length_cons, List.length_cons, ih]

namespace Progress

/-- The run within `limit` has the pruned state of the run without limit, which has no more
calls and groups open than the limit allows. -/
structure Mirrors (limit : Nat) (full cut : Progress) : Prop where
  room : full.frames.length ≤ limit
  full_skipping : full.skipping = 0
  cut_skipping : cut.skipping = 0
  level : cut.level = full.level.prune (limit - full.frames.length)
  frames : cut.frames = pruneFrames limit full.frames

/-- The run without limit is inside a call or group at the limit, with `inner` open in it, and
the run within the limit skips what is there. -/
structure Skips (limit : Nat) (inner : List Frame) (full cut : Progress) : Prop where
  full_skipping : full.skipping = 0
  cut_skipping : cut.skipping = inner.length + 1
  split : ∃ (frame : Frame) (frames : List Frame), full.frames = inner ++ frame :: frames
    ∧ frames.length = limit ∧ cut.frames = pruneFrames limit frames
    ∧ cut.level = (frame.outer.prune 0).addOperand frame.opener.emptied

/-- What the run within `limit` has built, beside what the run without limit has built of the
same tokens. -/
inductive Tracks (limit : Nat) (full cut : Progress) : Prop where
  | reading (h : Mirrors limit full cut) : Tracks limit full cut
  | skipping (inner : List Frame) (h : Skips limit inner full cut) : Tracks limit full cut

variable {limit : Nat} {full cut : Progress}

theorem tracks_start (limit : Nat) : Tracks limit start start :=
  .reading ⟨Nat.zero_le _, rfl, rfl, rfl, rfl⟩

/-! ### Within the limit -/

theorem Mirrors.length_frames (h : Mirrors limit full cut) :
    cut.frames.length = full.frames.length := by
  rw [h.frames, length_pruneFrames]

theorem Mirrors.report (h : Mirrors limit full cut) (fault : Fault) (position : Nat) :
    Mirrors limit (full.report fault position) (cut.report fault position) :=
  ⟨h.room, h.full_skipping, h.cut_skipping, h.level, h.frames⟩

/-- A node with nothing in it goes to both. -/
theorem Mirrors.addOperand (h : Mirrors limit full cut) {node : Node}
    (hnode : ∀ room, node.prune room = node) :
    Mirrors limit (full.addOperand node) (cut.addOperand node) where
  room := h.room
  full_skipping := h.full_skipping
  cut_skipping := h.cut_skipping
  level := by
    show cut.level.addOperand node = (full.level.addOperand node).prune _
    rw [← Level.addOperand_prune, hnode, h.level]
    rfl
  frames := h.frames

theorem Mirrors.addOperator (h : Mirrors limit full cut) (op : Operator) :
    Mirrors limit { full with level := full.level.addOperator op }
      { cut with level := cut.level.addOperator op } where
  room := h.room
  full_skipping := h.full_skipping
  cut_skipping := h.cut_skipping
  level := by
    show cut.level.addOperator op = (full.level.addOperator op).prune _
    rw [← Level.addOperator_prune, h.level]
  frames := h.frames

/-- A call or group is entered by both, or by one while the other begins to skip. -/
theorem Mirrors.enter (h : Mirrors limit full cut) {opener : Opener}
    (hopener : ∀ room, opener.prune room = opener) (hempty : opener.cut = opener.emptied)
    (position : Nat) :
    Tracks limit (full.enter none opener position) (cut.enter (some limit) opener position) := by
  have hfull : full.enter none opener position
      = { full with level := .empty, frames := ⟨opener, position, full.level⟩ :: full.frames } :=
    rfl
  rw [hfull]
  unfold Progress.enter
  by_cases hlt : full.frames.length < limit
  · rw [if_pos (by simpa [h.length_frames] using hlt)]
    refine .reading ⟨hlt, h.full_skipping, h.cut_skipping, rfl, ?_⟩
    rw [pruneFrames, hopener, h.level, h.frames]
  · rw [if_neg (by simpa [h.length_frames] using hlt)]
    have hlimit : full.frames.length = limit := by
      have := h.room
      omega
    refine .skipping [] ⟨h.full_skipping, rfl, _, full.frames, rfl, hlimit, h.frames, ?_⟩
    show cut.level.addOperand opener.cut = _
    rw [h.level, hempty, hlimit, Nat.sub_self]

theorem Mirrors.leave (h : Mirrors limit full cut) (position : Nat) :
    Mirrors limit (full.leave position) (cut.leave position) := by
  have hroom := h.room
  have hlevel := h.level
  have hframes := h.frames
  unfold Progress.leave
  cases hfull : full.frames with
  | nil =>
    rw [hfull] at hlevel hframes
    rw [hframes, pruneFrames]
    refine ⟨Nat.zero_le _, h.full_skipping, h.cut_skipping, ?_, rfl⟩
    show (⟨cut.level.close, .idle⟩ : Level) = Level.prune limit ⟨full.level.close, .idle⟩
    rw [hlevel, Level.close_prune]
    rfl
  | cons frame frames =>
    rw [hfull, List.length_cons] at hroom hlevel
    rw [hfull, pruneFrames] at hframes
    rw [hframes]
    refine ⟨by show frames.length ≤ limit; omega, h.full_skipping, h.cut_skipping, ?_, rfl⟩
    -- the node is inside `frames` only, one fewer than its items
    show (frame.outer.prune _).addOperand ((frame.opener.prune _).close cut.level.close) = _
    have hsucc : limit - frames.length = limit - (frames.length + 1) + 1 := by omega
    rw [hlevel, Level.close_prune, ← Opener.prune_close_succ, ← hsucc, Level.addOperand_prune]

theorem Mirrors.separate (h : Mirrors limit full cut) :
    Mirrors limit full.separate cut.separate := by
  have hroom := h.room
  have hlevel := h.level
  have hframes := h.frames
  have hclose : cut.level.close
      = full.level.close.map (Node.prune (limit - full.frames.length)) := by
    rw [hlevel, Level.close_prune]
  -- outside of calls a comma is an item of its own
  have hitem : Mirrors limit { full with level := ⟨full.level.close ++ [.comma], .idle⟩ }
      { cut with level := ⟨cut.level.close ++ [.comma], .idle⟩ } := by
    refine ⟨hroom, h.full_skipping, h.cut_skipping, ?_, hframes⟩
    show (⟨cut.level.close ++ [.comma], .idle⟩ : Level) = Level.prune _ _
    rw [hclose, Level.prune, List.map_append]
    rfl
  unfold Progress.separate
  cases hfull : full.frames with
  | nil =>
    rw [hfull, pruneFrames] at hframes
    rw [hframes]
    rw [hfull, hframes] at hitem
    exact hitem
  | cons frame frames =>
    obtain ⟨opener, position, outer⟩ := frame
    rw [hfull, pruneFrames] at hframes
    rw [hframes]
    cases opener with
    | group =>
      rw [hfull, hframes] at hitem
      exact hitem
    | call name args =>
      rw [hfull] at hroom hclose
      refine ⟨hroom, h.full_skipping, h.cut_skipping, rfl, ?_⟩
      show (_ :: _ : List Frame) = pruneFrames limit (_ :: _)
      rw [pruneFrames, hclose]
      simp [Opener.prune]

theorem Mirrors.step (h : Mirrors limit full cut) (token : Token) :
    Tracks limit (full.step none token) (cut.step (some limit) token) := by
  unfold Progress.step
  rw [if_pos h.full_skipping, if_pos h.cut_skipping]
  unfold Progress.accept
  cases token.kind with
  | number value unit => exact .reading (h.addOperand fun _ => rfl)
  | word name => exact .reading (h.addOperand fun _ => rfl)
  | color raw => exact .reading (h.addOperand fun _ => rfl)
  | property name => exact .reading (h.addOperand fun _ => rfl)
  | url raw => exact .reading (h.addOperand fun _ => rfl)
  | other raw => exact .reading (h.addOperand fun _ => rfl)
  | operator op => exact .reading (h.addOperator op)
  | function name => exact h.enter (fun _ => rfl) rfl token.start
  | opening => exact h.enter (fun _ => rfl) rfl token.start
  | closing => exact .reading (h.leave token.start)
  | comma => exact .reading h.separate
  | quoted raw =>
    simp only
    split
    · exact .reading (h.addOperand fun _ => rfl)
    · exact .reading ((h.report _ _).addOperand fun _ => rfl)

/-! ### Beyond the limit -/

/-- What is not a parenthesis changes at most the innermost level and the arguments of the
innermost call. -/
theorem step_none_of_inert (hskipping : full.skipping = 0) {frame : Frame} {frames : List Frame}
    (hfull : full.frames = frame :: frames) {token : Token}
    (hinert : ∀ opened, skip opened token.kind = opened) :
    (full.step none token).skipping = 0 ∧ ∃ opener : Opener,
      opener.emptied = frame.opener.emptied
        ∧ (full.step none token).frames = { frame with opener := opener } :: frames := by
  unfold Progress.step
  rw [if_pos hskipping]
  unfold Progress.accept
  cases hkind : token.kind with
  | number | word | color | property | url | other | operator =>
    exact ⟨hskipping, frame.opener, rfl, hfull⟩
  | quoted raw =>
    simp only
    split <;> exact ⟨hskipping, frame.opener, rfl, hfull⟩
  | comma =>
    obtain ⟨opener, position, outer⟩ := frame
    simp only [Progress.separate, hfull]
    cases opener with
    | call name args => exact ⟨hskipping, .call name (args ++ [full.level.close]), rfl, rfl⟩
    | group => exact ⟨hskipping, .group, rfl, rfl⟩
  | function | opening =>
    have hone := hinert 0
    rw [hkind] at hone
    simp [skip] at hone
  | closing =>
    have hone := hinert 1
    rw [hkind] at hone
    simp [skip] at hone

theorem Skips.step_of_inert {inner : List Frame} (h : Skips limit inner full cut) {token : Token}
    (hinert : ∀ opened, skip opened token.kind = opened) :
    Tracks limit (full.step none token) (cut.step (some limit) token) := by
  obtain ⟨frame, frames, hfull, hlimit, hframes, hlevel⟩ := h.split
  have hcut : cut.step (some limit) token = cut := by
    unfold Progress.step
    rw [if_neg (by rw [h.cut_skipping]; omega), hinert]
  rw [hcut]
  cases inner with
  | nil =>
    obtain ⟨hskipping, opener, hopener, hstep⟩ :=
      step_none_of_inert h.full_skipping hfull hinert
    exact .skipping [] ⟨hskipping, h.cut_skipping, _, frames, hstep, hlimit, hframes,
      by rw [hlevel, ← hopener]⟩
  | cons first inner =>
    obtain ⟨hskipping, opener, -, hstep⟩ := step_none_of_inert h.full_skipping hfull hinert
    exact .skipping ({ first with opener := opener } :: inner) ⟨hskipping, h.cut_skipping, frame,
      frames, hstep, hlimit, hframes, hlevel⟩

/-- An opener is one more to skip. -/
theorem Skips.enter {inner : List Frame} (h : Skips limit inner full cut) (opener : Opener)
    (position : Nat) : Tracks limit (full.enter none opener position)
      { cut with skipping := cut.skipping + 1 } := by
  obtain ⟨frame, frames, hfull, hlimit, hframes, hlevel⟩ := h.split
  refine .skipping (⟨opener, position, full.level⟩ :: inner) ⟨h.full_skipping, ?_, frame, frames,
    ?_, hlimit, hframes, hlevel⟩
  · show cut.skipping + 1 = _
    rw [h.cut_skipping, List.length_cons]
  · show (_ :: full.frames : List Frame) = _
    rw [hfull, List.cons_append]

/-- A closing parenthesis is one less to skip, and behind the last one both read on. -/
theorem Skips.leave {inner : List Frame} (h : Skips limit inner full cut) (position : Nat) :
    Tracks limit (full.leave position) { cut with skipping := cut.skipping - 1 } := by
  obtain ⟨frame, frames, hfull, hlimit, hframes, hlevel⟩ := h.split
  have hcount := h.cut_skipping
  unfold Progress.leave
  rw [hfull]
  cases inner with
  | nil =>
    refine .reading ⟨Nat.le_of_eq hlimit, h.full_skipping, ?_, ?_, hframes⟩
    · show cut.skipping - 1 = 0
      rw [hcount]
      rfl
    · show cut.level = Level.prune (limit - frames.length) (frame.outer.addOperand _)
      rw [hlevel, hlimit, Nat.sub_self, ← Level.addOperand_prune, Opener.prune_close_zero]
  | cons first inner =>
    refine .skipping inner ⟨h.full_skipping, ?_, frame, frames, rfl, hlimit, hframes, hlevel⟩
    show cut.skipping - 1 = inner.length + 1
    rw [hcount, List.length_cons]
    omega

theorem Skips.step {inner : List Frame} (h : Skips limit inner full cut) (token : Token) :
    Tracks limit (full.step none token) (cut.step (some limit) token) := by
  have hcut : cut.step (some limit) token
      = { cut with skipping := skip cut.skipping token.kind } := by
    unfold Progress.step
    rw [if_neg (by rw [h.cut_skipping]; omega)]
  have hfull : full.step none token = full.accept none token := by
    unfold Progress.step
    rw [if_pos h.full_skipping]
  cases hkind : token.kind with
  | function name =>
    rw [hcut, hfull, Progress.accept, hkind]
    exact h.enter _ _
  | opening =>
    rw [hcut, hfull, Progress.accept, hkind]
    exact h.enter _ _
  | closing =>
    rw [hcut, hfull, Progress.accept, hkind]
    exact h.leave _
  | _ => exact h.step_of_inert fun _ => by rw [hkind]; rfl

/-! ### All tokens -/

/-- **One token** keeps the two runs together. -/
theorem Tracks.step (h : Tracks limit full cut) (token : Token) :
    Tracks limit (full.step none token) (cut.step (some limit) token) := by
  cases h with
  | reading h => exact h.step token
  | skipping inner h => exact h.step token

theorem Tracks.foldl (tokens : List Token) :
    ∀ {full cut : Progress}, Tracks limit full cut →
      Tracks limit (tokens.foldl (Progress.step none) full)
        (tokens.foldl (Progress.step (some limit)) cut) := by
  induction tokens with
  | nil => exact fun h => h
  | cons token rest ih => exact fun h => ih (h.step token)

/-- Closing pruned frames gives the pruned items. -/
theorem closeAll_prune {frames : List Frame} :
    ∀ {level : Level} (issues other : List Issue), frames.length ≤ limit →
      (closeAll (level.prune (limit - frames.length)) issues (pruneFrames limit frames)).1
        = (closeAll level other frames).1.map (Node.prune limit) := by
  induction frames with
  | nil => intro level issues other _; exact Level.close_prune _ _
  | cons frame frames ih =>
    intro level issues other hroom
    rw [List.length_cons] at hroom ⊢
    have hsucc : limit - frames.length = limit - (frames.length + 1) + 1 := by omega
    rw [closeAll, pruneFrames, closeAll, ← ih _ _ (by omega), Level.close_prune,
      ← Opener.prune_close_succ, ← hsucc, Level.addOperand_prune]

/-- Frames further in only add items to the innermost of the others. -/
theorem closeAll_append (inner : List Frame) (frame : Frame) (frames : List Frame) :
    ∀ (level : Level) (issues : List Issue), ∃ (items : List Node) (more : List Issue),
      closeAll level issues (inner ++ frame :: frames)
        = closeAll (frame.outer.addOperand (frame.opener.close items)) more frames := by
  induction inner with
  | nil => exact fun level issues => ⟨level.close, _, rfl⟩
  | cons first inner ih => exact fun level issues => ih _ _

theorem Tracks.finish (h : Tracks limit full cut) :
    cut.finish.1 = full.finish.1.map (Node.prune limit) := by
  unfold Progress.finish
  cases h with
  | reading h => rw [h.level, h.frames, closeAll_prune _ full.issues h.room]
  | skipping inner h =>
    obtain ⟨frame, frames, hfull, hlimit, hframes, hlevel⟩ := h.split
    obtain ⟨items, more, hclose⟩ := closeAll_append inner frame frames full.level full.issues
    rw [hfull, hclose, hframes, hlevel, ← Opener.prune_close_zero frame.opener items,
      Level.addOperand_prune, ← closeAll_prune _ more (Nat.le_of_eq hlimit), hlimit, Nat.sub_self]

end Progress

/-- The tree within a limit is the tree without limit, pruned. -/
theorem buildWithin_some (limit : Nat) (tokens : List Token) :
    (buildWithin (some limit) tokens).1 = (buildWithin none tokens).1.map (prune limit) :=
  ((Progress.tracks_start limit).foldl tokens).finish

/-- **The nesting limit only prunes.** The tree of a text is the tree that is built without
limit, with every call at the nesting limit turned into one with a single empty argument and
every group there into an empty one. -/
theorem build_eq_prune (text : String) :
    (build (Token.scan text)).1
      = (buildWithin none (Token.scan text)).1.map (prune nestingLimit) :=
  buildWithin_some nestingLimit (Token.scan text)

end Node
end ResponsiveCss
