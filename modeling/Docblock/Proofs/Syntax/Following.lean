import Docblock.Proofs.Syntax.Comments

/-!
# Trees that follow a grammar

Where a tree has the comments of a grammar, in order and where they stand, what is found in it are slices of the source.
All comments of the grammar that are documentation are found.
-/

set_option autoImplicit false

namespace Docblock

namespace Text

theorem append_inj_of_byteSize {s s' t t' : Text} (whole : s ++ t = s' ++ t') (size : byteSize s = byteSize s') :
    s = s' ∧ t = t' := by
  have one : takeBytes? (s ++ t) (byteSize s) = some s := takeBytes?_eq_some_iff.2 ⟨t, rfl, rfl⟩
  have other : takeBytes? (s ++ t) (byteSize s) = some s' := takeBytes?_eq_some_iff.2 ⟨t', whole, size.symm⟩
  obtain rfl := Option.some.inj (one.symm.trans other)
  exact ⟨rfl, List.append_cancel_left whole⟩

end Text

namespace Syntax

/-! ## What is asked of a tree -/

def Extent.between (before text : Text) : Extent where
  startByte := Text.byteSize before
  stopByte := Text.byteSize (before ++ text)
  startPosition := .behind before
  stopPosition := .behind (before ++ text)

/-- What can stand in a block comment: no end of a comment, nor the front of one with the star that follows. -/
def Uncut (body : Text) : Prop :=
  ¬ ['*', '/'] <:+: body ++ ['*']

instance (body : Text) : Decidable (Uncut body) :=
  inferInstanceAs (Decidable (¬ _))

theorem Uncut.tail {c : Char} {body : Text} (uncut : Uncut (c :: body)) : Uncut body :=
  fun inside => uncut (inside.trans (List.suffix_cons c _).isInfix)

/-- How comments are written: to the end of a line, or to the first end of a comment. -/
inductive IsCommentText : Text → Prop where
  | line {s : Text} (inLine : '\n' ∉ s) : IsCommentText ("//".toList ++ s)
  | block {body : Text} (uncut : Uncut body) : IsCommentText ("/*".toList ++ (body ++ "*/".toList))

theorem IsCommentText.exists_body {text : Text} (isComment : IsCommentText text) (stars : "/**".toList <+: text)
    (filled : ¬ "/**/".toList <+: text) : ∃ body, text = "/**".toList ++ (body ++ "*/".toList) ∧ Uncut body := by
  cases isComment with
  | line inLine =>
      obtain ⟨rest, whole⟩ := stars
      exact absurd (List.cons.inj (List.cons.inj whole).2).1 (by decide)
  | @block body uncut =>
      cases body with
      | nil => exact absurd List.prefix_rfl filled
      | cons c body =>
          obtain ⟨rest, whole⟩ := stars
          obtain rfl : '*' = c := (List.cons.inj (List.cons.inj (List.cons.inj whole).2).2).1
          exact ⟨body, rfl, uncut.tail⟩

/-- The tree of a source follows a grammar whose comments in the source stand from byte to byte as `isComment` says: its
comments are those, nodes stand in order, and positions are those of the source. -/
structure Node.Follows (root : Node) (source : Text) (isComment : Nat → Nat → Prop) : Prop where
  ordered : root.Ordered
  leaf : ∀ node ∈ root.comments, node.children = []
  placed : ∀ node ∈ root.comments, ∃ before text after, source = before ++ (text ++ after) ∧
    node.extent = .between before text ∧ IsCommentText text
  comments : ∀ start stop, isComment start stop ↔
    ∃ node ∈ root.comments, node.extent.startByte = start ∧ node.extent.stopByte = stop

end Syntax

namespace DocComment

open Syntax (Node IsCommentText Uncut)

/-- A comment stands between two parts of a source, and its location says so. -/
structure StandsIn (source : Text) (doc : DocComment) (before after : Text) : Prop where
  whole : source = before ++ (doc.text ++ after)
  start : doc.location.start = .behind before
  stop : doc.location.stop = .behind (before ++ doc.text)

variable {source before after : Text} {doc : DocComment}

theorem StandsIn.byteIn_start (stands : StandsIn source doc before after) :
    doc.location.start.byteIn source = Text.byteSize before := by
  rw [stands.start, stands.whole, Position.byteIn_behind]

theorem StandsIn.byteIn_stop (stands : StandsIn source doc before after) :
    doc.location.stop.byteIn source = Text.byteSize (before ++ doc.text) := by
  rw [stands.stop, stands.whole, ← List.append_assoc, Position.byteIn_behind]

theorem StandsIn.slice (stands : StandsIn source doc before after) :
    source.utf8Encode.extract (doc.location.start.byteIn source) (doc.location.stop.byteIn source) =
      doc.text.utf8Encode := by
  rw [stands.byteIn_start, stands.byteIn_stop, stands.whole, Text.extract_utf8Encode]

theorem isDoc_iff {text : Text} : isDoc text = true ↔ "/**".toList <+: text ∧ ¬ "/**/".toList <+: text := by
  rw [isDoc, Bool.and_eq_true, Bool.not_eq_true', ← Bool.not_eq_true, List.isPrefixOf_iff_prefix,
    List.isPrefixOf_iff_prefix]

theorem StandsIn.byteIn_lt (stands : StandsIn source doc before after) (documents : isDoc doc.text = true) :
    doc.location.start.byteIn source < doc.location.stop.byteIn source := by
  obtain ⟨rest, whole⟩ := (isDoc_iff.1 documents).1
  have filled : doc.text ≠ [] := by simp [← whole]
  rw [stands.byteIn_start, stands.byteIn_stop, Text.byteSize_append]
  exact Nat.lt_add_of_pos_right (Text.byteSize_pos filled)

section Tree

variable {root comment : Node} {isComment : Nat → Nat → Prop}

/-- What is found in a comment of the tree stands where the comment does. -/
theorem exists_standsIn_of_found? (follows : root.Follows source isComment) (met : comment ∈ root.comments)
    (found : found? source comment = some (doc.text, doc.location)) :
    ∃ before after, StandsIn source doc before after ∧ comment.extent = .between before doc.text ∧
      IsCommentText doc.text := by
  obtain ⟨slice, -, located⟩ := found?_eq_some_iff.1 found
  obtain ⟨before, text, after, whole, extent, isText⟩ := follows.placed comment met
  obtain ⟨before', after', whole', start, stop⟩ := slice
  rw [extent] at start stop located
  obtain ⟨rfl, same⟩ := Text.append_inj_of_byteSize (whole.symm.trans whole') start
  have size : Text.byteSize text = Text.byteSize doc.text := by
    have sum : Text.byteSize (before ++ text) = Text.byteSize (before ++ doc.text) := stop
    rw [Text.byteSize_append, Text.byteSize_append] at sum
    omega
  obtain ⟨rfl, rfl⟩ := Text.append_inj_of_byteSize same size
  exact ⟨before, after, ⟨whole, congrArg Location.start located, congrArg Location.stop located⟩, extent, isText⟩

theorem map_visitAll_root (follows : root.Follows source isComment) :
    (visitAll source [root]).map (fun doc => (doc.text, doc.location)) = root.comments.filterMap (found? source) := by
  have leaf := follows.leaf
  rw [← Syntax.commentsAmong_singleton] at leaf ⊢
  exact map_visitAll source [root] leaf

theorem exists_of_mem_visitAll_root (inside : doc ∈ visitAll source [root]) :
    ∃ comment ∈ root.comments, found? source comment = some (doc.text, doc.location) := by
  rw [← Syntax.commentsAmong_singleton]
  exact exists_of_mem_visitAll source doc [root] inside

theorem pairwise_visitAll_root (follows : root.Follows source isComment) :
    (visitAll source [root]).Pairwise fun doc next =>
      doc.location.stop.byteIn source ≤ next.location.start.byteIn source := by
  have located : ((visitAll source [root]).map fun doc => (doc.text, doc.location)).Pairwise fun found next =>
      found.2.stop.byteIn source ≤ next.2.start.byteIn source := by
    rw [map_visitAll_root follows, List.pairwise_filterMap]
    refine (follows.ordered.pairwise_comments follows.leaf).imp_of_mem ?_
    rintro comment next met met' apart ⟨text, location⟩ found ⟨text', location'⟩ found'
    obtain ⟨before, after, stands, extent, -⟩ : ∃ before after,
        StandsIn source ⟨text, location, none⟩ before after ∧ _ := exists_standsIn_of_found? follows met found
    obtain ⟨before', after', stands', extent', -⟩ : ∃ before after,
        StandsIn source ⟨text', location', none⟩ before after ∧ _ := exists_standsIn_of_found? follows met' found'
    rw [Node.Before, extent, extent'] at apart
    have stop := stands.byteIn_stop
    have start := stands'.byteIn_start
    simp only at stop start ⊢
    rw [stop, start]
    exact apart
  exact List.pairwise_map.1 located

/-- What is found stands in the source between the bytes of a comment of the grammar. -/
theorem exists_standsIn_of_mem (follows : root.Follows source isComment) (inside : doc ∈ visitAll source [root]) :
    (∃ before after, StandsIn source doc before after) ∧ isDoc doc.text = true ∧ IsCommentText doc.text ∧
      isComment (doc.location.start.byteIn source) (doc.location.stop.byteIn source) := by
  obtain ⟨comment, met, found⟩ := exists_of_mem_visitAll_root inside
  obtain ⟨before, after, stands, extent, isText⟩ := exists_standsIn_of_found? follows met found
  refine ⟨⟨before, after, stands⟩, (found?_eq_some_iff.1 found).2.1, isText,
    (follows.comments _ _).2 ⟨comment, met, ?_⟩⟩
  rw [stands.byteIn_start, stands.byteIn_stop, extent]
  exact ⟨rfl, rfl⟩

theorem exists_mem_of_isComment {start stop : Nat} {text : Text} (follows : root.Follows source isComment)
    (here : isComment start stop) (slice : Text.Slice source start stop text) (documents : isDoc text = true) :
    ∃ doc ∈ visitAll source [root], doc.location.start.byteIn source = start ∧ doc.text = text := by
  obtain ⟨comment, met, rfl, rfl⟩ := (follows.comments _ _).1 here
  have found := found?_eq_some_iff.2 ⟨slice, documents, rfl⟩
  have key := List.mem_filterMap.2 ⟨comment, met, found⟩
  rw [← map_visitAll_root follows] at key
  obtain ⟨doc, inside, same⟩ := List.mem_map.1 key
  obtain ⟨rfl, located⟩ := Prod.mk.inj same
  rw [← located] at found
  obtain ⟨before, after, stands, extent, -⟩ := exists_standsIn_of_found? follows met found
  refine ⟨doc, inside, ?_, rfl⟩
  rw [stands.byteIn_start, extent]
  rfl

theorem nodup_map_visitAll_root (follows : root.Follows source isComment) :
    ((visitAll source [root]).map fun doc => (doc.location.start.byteIn source, doc.text)).Nodup := by
  rw [List.Nodup, List.pairwise_map]
  refine (pairwise_visitAll_root follows).imp_of_mem fun {doc next} inside _ apart same => ?_
  obtain ⟨⟨before, after, stands⟩, isDoc, -⟩ := exists_standsIn_of_mem follows inside
  have starts := (Prod.mk.inj same).1
  have order := stands.byteIn_lt isDoc
  omega

end Tree

end DocComment

end Docblock
