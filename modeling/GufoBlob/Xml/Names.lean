import GufoBlob.Xml.Content

/-!
# Elements with namespaces

An element has a qualified name: a local part, and the URI of a namespace if it is in one. A parser
that resolves namespaces spells it `uri}local`. `Nodes` is the content of a document with such names,
and `Nodes.content` is what the parser sees of it; selecting elements by their local parts is stated
for `Nodes`, so that it does not depend on how the names are spelled (`select_content`).
-/

namespace GufoBlob.Xml

open Text

/-- A qualified name. A local part has no `}`. -/
structure QName where
  uri : Option Str
  localPart : Str
  ok : '}' ∉ localPart

/-- The name as the parser spells it. -/
def QName.spell (n : QName) : Str :=
  match n.uri with
  | none => n.localPart
  | some uri => uri ++ '}' :: n.localPart

/-- A sequence of texts and elements. -/
inductive Nodes where
  | nil
  | text (s : Str) (rest : Nodes)
  | elem (name : QName) (children rest : Nodes)

namespace Nodes

/-- The content with its names spelled. -/
def content : Nodes → Content
  | nil => .nil
  | text s rest => .text s rest.content
  | elem name children rest => .elem name.spell children.content rest.content

/-- There is no element in it. -/
def OnlyText : Nodes → Prop
  | nil => True
  | text _ rest => rest.OnlyText
  | elem _ _ _ => False

/-- All its text, in one piece. -/
def fullText : Nodes → Str
  | nil => []
  | text s rest => s ++ rest.fullText
  | elem _ children rest => children.fullText ++ rest.fullText

/-- The texts of the elements whose path of local parts ends with `field`, in document order; `path`
leads to the nodes. -/
def select (field : List Str) : List Str → Nodes → List Str
  | _, nil => []
  | path, text _ rest => select field path rest
  | path, elem name children rest =>
      (if field <:+ path ++ [name.localPart] then [children.fullText] else []) ++
        select field (path ++ [name.localPart]) children ++ select field path rest

/-- The elements whose path ends with one of `fields` contain only text. -/
def Leaves (fields : List (List Str)) : List Str → Nodes → Prop
  | _, nil => True
  | path, text _ rest => rest.Leaves fields path
  | path, elem name children rest =>
      ((∃ f ∈ fields, f <:+ path ++ [name.localPart]) → children.OnlyText) ∧
        children.Leaves fields (path ++ [name.localPart]) ∧ rest.Leaves fields path

theorem onlyText_content {c : Nodes} : c.content.OnlyText ↔ c.OnlyText := by
  induction c with
  | nil => exact Iff.rfl
  | text s rest ih => exact ih
  | elem name children rest _ _ => exact Iff.rfl

/-- Without elements, the text between them is all the text. -/
theorem ownText_content {c : Nodes} (hc : c.OnlyText) : c.content.ownText = c.fullText := by
  induction c with
  | nil => rfl
  | text s rest ih => simp [content, Content.ownText, fullText, ih hc]
  | elem name children rest _ _ => exact absurd hc id

variable {name : Str → Str} {fields : List (List Str)}

theorem leaves_content (hname : ∀ n : QName, name n.spell = n.localPart) {path : List Str}
    {c : Nodes} : c.content.Leaves name fields path ↔ c.Leaves fields path := by
  induction c generalizing path with
  | nil => exact Iff.rfl
  | text s rest ih => exact ih
  | elem n children rest ihchildren ihrest =>
      simp [content, Content.Leaves, Leaves, hname, onlyText_content, ihchildren, ihrest]

/-- A function that gives the local part of a spelled name selects by local parts. -/
theorem select_content (hname : ∀ n : QName, name n.spell = n.localPart) {field : List Str}
    (hfield : field ∈ fields) {path : List Str} {c : Nodes} (hleaves : c.Leaves fields path) :
    c.content.select name field path = c.select field path := by
  induction c generalizing path with
  | nil => rfl
  | text s rest ih => exact ih hleaves
  | elem n children rest ihchildren ihrest =>
      obtain ⟨htext, hchildren, hrest⟩ := hleaves
      simp only [content, Content.select, select, hname, ihchildren hchildren, ihrest hrest]
      by_cases hsel : field <:+ path ++ [n.localPart]
      · rw [if_pos hsel, if_pos hsel, ownText_content (htext ⟨field, hfield, hsel⟩)]
      · rw [if_neg hsel, if_neg hsel]

end Nodes

end GufoBlob.Xml
