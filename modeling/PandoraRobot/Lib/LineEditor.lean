import Mathlib.Data.List.InsertIdx
import Mathlib.Data.List.TakeWhile
import Mathlib.Tactic.SplitIfs

/-! # Editing a line

A text with a cursor and with the lines entered before it, and a buffer of fixed width that holds
a text followed by fill characters.
-/

namespace PandoraRobot.LineEditor

variable {α : Type}

/-! ## The editor -/

/-- A key of the keyboard. -/
inductive Key (α : Type) where
  | char (x : α)
  | up
  | down
  | left
  | right
  | tab
  | backspace
  | enter
  deriving DecidableEq, Repr

/-- A line being edited.  `history` has the lines entered before, the oldest first, and `selected`
    is the place in it that the arrow keys have moved to. -/
structure Editor (α : Type) where
  text : List α
  cursor : Nat
  history : List (List α)
  selected : Nat
  cursor_le : cursor ≤ text.length
  selected_le : selected ≤ history.length

namespace Editor

variable {e : Editor α} {x z : α} {limit depth : Nat}

def empty : Editor α where
  text := []
  cursor := 0
  history := []
  selected := 0
  cursor_le := le_rfl
  selected_le := le_rfl

/-- A text that reaches `limit` characters is discarded as a whole. -/
def insert (limit : Nat) (x : α) (e : Editor α) : Editor α :=
  if e.text.length + 1 < limit then
    { e with
      text := e.text.insertIdx e.cursor x
      cursor := e.cursor + 1
      cursor_le := by
        rw [List.length_insertIdx_of_le_length e.cursor_le]
        exact Nat.succ_le_succ e.cursor_le }
  else { e with text := [], cursor := 0, cursor_le := le_rfl }

/-- The character before the cursor goes. -/
def erase (e : Editor α) : Editor α :=
  if h : e.cursor = 0 then e
  else
    { e with
      text := e.text.eraseIdx (e.cursor - 1)
      cursor := e.cursor - 1
      cursor_le := by
        have hle := e.cursor_le
        rw [List.length_eraseIdx_of_lt (by omega)]
        omega }

def moveLeft (e : Editor α) : Editor α :=
  { e with cursor := e.cursor - 1, cursor_le := (Nat.sub_le _ _).trans e.cursor_le }

def moveRight (e : Editor α) : Editor α :=
  if h : e.cursor < e.text.length then { e with cursor := e.cursor + 1, cursor_le := h } else e

def moveEnd (e : Editor α) : Editor α :=
  { e with cursor := e.text.length, cursor_le := le_rfl }

/-- The line entered as `i`-th takes the place of the text. -/
def load (i : Nat) (hi : i < e.history.length) : Editor α :=
  { e with
    text := e.history[i]
    cursor := e.history[i].length
    selected := i
    cursor_le := le_rfl
    selected_le := hi.le }

def previous (e : Editor α) : Editor α :=
  if h : 0 < e.selected then
    e.load (e.selected - 1) (lt_of_lt_of_le (Nat.sub_lt h Nat.one_pos) e.selected_le)
  else e

/-- The line after the recalled one, or the last one again. -/
def next (e : Editor α) : Editor α :=
  if h : e.selected + 1 < e.history.length then e.load (e.selected + 1) h
  else if h : 0 < e.history.length then e.load (e.history.length - 1) (Nat.sub_lt h Nat.one_pos)
  else e

/-- The last `depth` lines entered, without the empty ones and without repetitions in a row. -/
def remember [DecidableEq α] (depth : Nat) (text : List α) (history : List (List α)) :
    List (List α) :=
  if text = [] ∨ history.getLast? = some text then history
  else if history.length < depth then history ++ [text]
  else history.tail ++ [text]

def enter [DecidableEq α] (depth : Nat) (e : Editor α) : Editor α where
  text := []
  cursor := 0
  history := remember depth e.text e.history
  selected := (remember depth e.text e.history).length
  cursor_le := le_rfl
  selected_le := le_rfl

/-- What a key does, and the line that it enters. -/
def press [DecidableEq α] (limit depth : Nat) (e : Editor α) :
    Key α → Editor α × Option (List α)
  | .char x => (e.insert limit x, none)
  | .up => (e.previous, none)
  | .down => (e.next, none)
  | .left => (e.moveLeft, none)
  | .right => (e.moveRight, none)
  | .tab => (e.moveEnd, none)
  | .backspace => (e.erase, none)
  | .enter => (e.enter depth, some e.text)

/-! ### What fits into a buffer -/

/-- A text is shorter than the buffer and does not have the fill character. -/
def Fit (limit : Nat) (z : α) (text : List α) : Prop := text.length < limit ∧ z ∉ text

structure Fits (limit depth : Nat) (z : α) (e : Editor α) : Prop where
  text : Fit limit z e.text
  history : ∀ text ∈ e.history, Fit limit z text
  depth : e.history.length ≤ depth

theorem Fits.empty (hlimit : 0 < limit) : (empty : Editor α).Fits limit depth z where
  text := ⟨hlimit, by simp [Editor.empty]⟩
  history := by simp [Editor.empty]
  depth := Nat.zero_le _

theorem Fits.insert (h : e.Fits limit depth z) (hx : x ≠ z) :
    (e.insert limit x).Fits limit depth z := by
  unfold Editor.insert
  split
  next hroom =>
    refine ⟨⟨?_, ?_⟩, h.history, h.depth⟩
    · rwa [List.length_insertIdx_of_le_length e.cursor_le]
    · rw [List.mem_insertIdx e.cursor_le]
      exact fun hz => hz.elim (fun hz => hx hz.symm) h.text.2
  next => exact ⟨⟨Nat.zero_lt_of_lt h.text.1, by simp⟩, h.history, h.depth⟩

theorem Fits.erase (h : e.Fits limit depth z) : e.erase.Fits limit depth z := by
  unfold Editor.erase
  split
  next => exact h
  next =>
    refine ⟨⟨lt_of_le_of_lt (List.length_eraseIdx_le _ _) h.text.1, fun hz => ?_⟩,
      h.history, h.depth⟩
    exact h.text.2 (List.mem_of_mem_eraseIdx hz)

theorem Fits.load {i : Nat} (hi : i < e.history.length) (h : e.Fits limit depth z) :
    (e.load i hi).Fits limit depth z where
  text := h.history _ (List.getElem_mem hi)
  history := h.history
  depth := h.depth

theorem Fits.previous (h : e.Fits limit depth z) : e.previous.Fits limit depth z := by
  unfold Editor.previous
  split
  next => exact h.load _
  next => exact h

theorem Fits.next (h : e.Fits limit depth z) : e.next.Fits limit depth z := by
  unfold Editor.next
  split_ifs
  · exact h.load _
  · exact h.load _
  · exact h

theorem Fits.enter [DecidableEq α] (h : e.Fits limit depth z) (hdepth : 0 < depth) :
    (e.enter depth).Fits limit depth z := by
  refine ⟨⟨Nat.zero_lt_of_lt h.text.1, by simp [Editor.enter]⟩, ?_, ?_⟩
  · intro text hmem
    simp only [Editor.enter, remember] at hmem
    split_ifs at hmem
    · exact h.history text hmem
    · rcases List.mem_append.mp hmem with hmem | hmem
      · exact h.history text hmem
      · exact List.mem_singleton.mp hmem ▸ h.text
    · rcases List.mem_append.mp hmem with hmem | hmem
      · exact h.history text (List.mem_of_mem_tail hmem)
      · exact List.mem_singleton.mp hmem ▸ h.text
  · have hle := h.depth
    simp only [Editor.enter, remember]
    split_ifs <;> simp <;> omega

theorem Fits.press [DecidableEq α] (h : e.Fits limit depth z) (hdepth : 0 < depth) {key : Key α}
    (hkey : key ≠ .char z) : (e.press limit depth key).1.Fits limit depth z := by
  cases key with
  | char x => exact h.insert fun hx => hkey (by rw [hx])
  | up => exact h.previous
  | down => exact h.next
  | left => exact ⟨h.text, h.history, h.depth⟩
  | right =>
    simp only [Editor.press, moveRight]
    split
    · exact ⟨h.text, h.history, h.depth⟩
    · exact h
  | tab => exact ⟨h.text, h.history, h.depth⟩
  | backspace => exact h.erase
  | enter => exact h.enter hdepth

end Editor

/-! ## A buffer of fixed width -/

/-- A text in a buffer that is filled up with `z`. -/
def padded (width : Nat) (z : α) (text : List α) : List α :=
  text ++ List.replicate (width - text.length) z

/-- `length` characters move from `source` to `target`. -/
def moved (target source length : Nat) (buffer : List α) : List α :=
  buffer.take target ++ (buffer.drop source).take length ++ buffer.drop (target + length)

section Padded

variable {width c : Nat} {z x : α} {text : List α}

theorem length_padded (h : text.length ≤ width) : (padded width z text).length = width := by
  simp only [padded, List.length_append, List.length_replicate]
  omega

theorem take_padded : (padded width z text).take text.length = text := by
  simp [padded]

theorem getElem?_padded {i : Nat} : (padded width z text)[i]? =
    if i < text.length then text[i]? else if i < width then some z else none := by
  simp only [padded, List.getElem?_append, List.getElem?_replicate]
  split_ifs <;> first | rfl | omega

theorem getElem?_moved {target source length i : Nat} {buffer : List α}
    (htarget : target + length ≤ buffer.length) (hsource : source + length ≤ buffer.length) :
    (moved target source length buffer)[i]? =
      if target ≤ i ∧ i < target + length then buffer[source + (i - target)]? else buffer[i]? := by
  have hbefore : (buffer.take target).length = target := List.length_take_of_le (by omega)
  have hblock : ((buffer.drop source).take length).length = length :=
    List.length_take_of_le (by rw [List.length_drop]; omega)
  simp only [moved, List.getElem?_append, List.length_append, hbefore, hblock,
    List.getElem?_take, List.getElem?_drop]
  split_ifs <;> first | rfl | omega | (congr 1; omega)

/-- The characters of a text from the cursor on make room for one, which is put there. -/
theorem padded_insert (hc : c ≤ text.length) (hroom : text.length < width) :
    (moved (c + 1) c (text.length - c) (padded width z text)).set c x =
      padded width z (text.insertIdx c x) := by
  have hlength := length_padded (z := z) hroom.le
  have hinsert := List.length_insertIdx_of_le_length hc x
  have hmoved : (moved (c + 1) c (text.length - c) (padded width z text)).length = width := by
    simp only [moved, List.length_append, List.length_take, List.length_drop]
    omega
  refine List.ext_getElem? fun i => ?_
  rw [List.getElem?_set, hmoved, getElem?_moved (by omega) (by omega), getElem?_padded,
    getElem?_padded, getElem?_padded, hinsert, List.getElem?_insertIdx]
  rcases lt_trichotomy i c with hlt | rfl | hgt
  · rw [if_neg (by omega), if_neg (by omega), if_pos (by omega), if_pos (by omega),
      if_pos hlt]
  · rw [if_pos rfl, if_pos (by omega), if_pos (by omega), if_neg (by omega), if_pos rfl,
      if_pos hc]
  · rw [if_neg (by omega)]
    by_cases hi : i < text.length + 1
    · have hsource : c + (i - (c + 1)) = i - 1 := by omega
      rw [if_pos (by omega), hsource, if_pos (by omega), if_pos hi, if_neg (by omega),
        if_neg (by omega)]
    · rw [if_neg (by omega), if_neg (by omega), if_neg hi]

/-- A character behind the text goes over the first fill character. -/
theorem padded_append (hroom : text.length < width) :
    (padded width z text).set text.length x = padded width z (text.insertIdx text.length x) := by
  obtain ⟨n, hn⟩ := Nat.exists_eq_add_of_lt hroom
  have hwidth : width - text.length = n + 1 := by omega
  have hrest : width - (text.length + 1) = n := by omega
  simp [padded, List.insertIdx_length_self, List.set_append_right, hwidth, hrest,
    List.replicate_succ]

/-- The characters behind the cursor close up, and the place of the last one is filled. -/
theorem padded_erase (hc : c < text.length) (hroom : text.length ≤ width) :
    (moved c (c + 1) (text.length - 1 - c) (padded width z text)).set (text.length - 1) z =
      padded width z (text.eraseIdx c) := by
  have hlength := length_padded (z := z) hroom
  have herase := List.length_eraseIdx_of_lt hc
  have hmoved : (moved c (c + 1) (text.length - 1 - c) (padded width z text)).length = width := by
    simp only [moved, List.length_append, List.length_take, List.length_drop]
    omega
  refine List.ext_getElem? fun i => ?_
  rw [List.getElem?_set, hmoved, getElem?_moved (by omega) (by omega), getElem?_padded,
    getElem?_padded, getElem?_padded, herase, List.getElem?_eraseIdx]
  rcases lt_trichotomy i (text.length - 1) with hlt | rfl | hgt
  · rw [if_neg (by omega), if_pos hlt]
    by_cases hi : i < c
    · rw [if_neg (by omega), if_pos (by omega), if_pos hi]
    · have hsource : c + 1 + (i - c) = i + 1 := by omega
      rw [if_pos (by omega), hsource, if_pos (by omega), if_neg hi]
  · rw [if_pos rfl, if_pos (by omega), if_neg (by omega)]
  · rw [if_neg (by omega), if_neg (by omega), if_neg (by omega),
      if_neg (show ¬ i < text.length - 1 by omega)]

/-- At the end of the text nothing has to close up. -/
theorem moved_zero {target source : Nat} {buffer : List α} :
    moved target source 0 buffer = buffer := by
  simp [moved]

theorem takeWhile_padded [DecidableEq α] (hz : z ∉ text) :
    (padded width z text).takeWhile (· ≠ z) = text := by
  have htext : ∀ x ∈ text, decide (x ≠ z) = true := fun x hx =>
    decide_eq_true fun h => hz (h ▸ hx)
  rw [padded, List.takeWhile_append_of_pos htext, List.takeWhile_replicate]
  simp

theorem padded_injective [DecidableEq α] {other : List α} (hz : z ∉ text) (hother : z ∉ other) :
    padded width z text = padded width z other ↔ text = other := by
  refine ⟨fun h => ?_, congrArg _⟩
  have htext : (padded width z text).takeWhile (· ≠ z) = text := takeWhile_padded hz
  rw [← htext, h, takeWhile_padded hother]

end Padded

end PandoraRobot.LineEditor
