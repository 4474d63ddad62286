import GufoBlob.Text.Basic
import Mathlib.Data.List.Infix

/-!
# XML content and its events

The content of an XML element, and the events that an event-based parser delivers for it: the start
of an element, a piece of its text, its end. A parser may deliver a text in any number of pieces
(`Delivered`).

`select` picks elements by the local names on the path to them. It is what an event handler that
collects texts is compared with.
-/

namespace GufoBlob.Xml

open Text

/-- A sequence of texts and elements. -/
inductive Content where
  | nil
  | text (s : Str) (rest : Content)
  | elem (tag : Str) (children rest : Content)

/-- What the parser reports; a tag is the name as the parser spells it. -/
inductive Event where
  | start (tag : Str)
  | data (s : Str)
  | stop (tag : Str)

/-- The events of a content, each of its texts in any pieces. -/
inductive Delivered : Content → List Event → Prop where
  | nil : Delivered .nil []
  | text {rest evs} (pieces : List Str) : Delivered rest evs →
      Delivered (.text pieces.flatten rest) (pieces.map .data ++ evs)
  | elem {tag children rest inner evs} : Delivered children inner → Delivered rest evs →
      Delivered (.elem tag children rest) (.start tag :: (inner ++ .stop tag :: evs))

namespace Content

/-- There is no element in it. -/
def OnlyText : Content → Prop
  | nil => True
  | text _ rest => rest.OnlyText
  | elem _ _ _ => False

/-- The text outside its elements. -/
def ownText : Content → Str
  | nil => []
  | text s rest => s ++ rest.ownText
  | elem _ _ rest => rest.ownText

/-- The texts of the elements whose path of names ends with `field`, in document order; `path` leads
to the content. -/
def select (name : Str → Str) (field : List Str) : List Str → Content → List Str
  | _, nil => []
  | path, text _ rest => select name field path rest
  | path, elem tag children rest =>
      (if field <:+ path ++ [name tag] then [children.ownText] else []) ++
        select name field (path ++ [name tag]) children ++ select name field path rest

/-- The elements whose path ends with one of `fields` contain only text. -/
def Leaves (name : Str → Str) (fields : List (List Str)) : List Str → Content → Prop
  | _, nil => True
  | path, text _ rest => rest.Leaves name fields path
  | path, elem tag children rest =>
      ((∃ f ∈ fields, f <:+ path ++ [name tag]) → children.OnlyText) ∧
        children.Leaves name fields (path ++ [name tag]) ∧ rest.Leaves name fields path

theorem select_of_onlyText (name : Str → Str) (field path : List Str) {c : Content}
    (hc : c.OnlyText) : c.select name field path = [] := by
  induction c with
  | nil => rfl
  | text s rest ih => exact ih hc
  | elem tag children rest _ _ => exact absurd hc id

/-- A content without elements is delivered as the pieces of its text. -/
theorem delivered_onlyText {c : Content} {evs : List Event} (hc : c.OnlyText)
    (h : Delivered c evs) : ∃ pieces : List Str, evs = pieces.map .data ∧ pieces.flatten = c.ownText := by
  induction h with
  | nil => exact ⟨[], rfl, rfl⟩
  | text pieces _ ih =>
      obtain ⟨more, rfl, hmore⟩ := ih hc
      exact ⟨pieces ++ more, by simp, by simp [ownText, hmore]⟩
  | elem _ _ _ _ => exact absurd hc id

end Content

end GufoBlob.Xml
