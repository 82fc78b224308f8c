import FrameGraph.Proofs.NameMarking
import Mathlib.Data.List.Basic

/-!
Tagging a name several times over. Main statement: however often a name is tagged, its free-standing
occurrences in the code as it was at first get that many markers on either side and nothing else
changes; and it makes no difference which of two names is tagged first.
-/

namespace FrameGraph

namespace Lexeme

theorem rewriteFrom_of_unchanged {replace : String → String} {lexemes : List Lexeme}
    (unchanged : ∀ lexeme ∈ lexemes, replace lexeme.text = lexeme.text) (before : List Char) :
    rewriteFrom replace before lexemes = rewriteFrom (fun name => name) before lexemes := by
  induction lexemes generalizing before with
  | nil => rfl
  | cons lexeme rest ih =>
      rw [List.forall_mem_cons] at unchanged
      rw [rewriteFrom, rewriteFrom, ih unchanged.2, unchanged.1]

theorem rewrite_of_not_infix {replace : String → String} {name code : String}
    (absent : ¬ name.toList <:+: code.toList)
    (others : ∀ text, text ≠ name → replace text = text) : rewrite replace code = code := by
  have unchanged : ∀ lexeme ∈ lex code, replace lexeme.text = lexeme.text := by
    intro lexeme member
    apply others
    rintro rfl
    apply absent
    rw [← flatMap_lex code]
    exact List.infix_of_mem_flatten (List.mem_map_of_mem member)
  calc
    rewrite replace code = rewrite (fun name => name) code := rewriteFrom_of_unchanged unchanged []
    _ = code := rewrite_self code

end Lexeme

namespace Tag

open Lexeme

def surround (tag : Char) (times : Nat) (name : String) : String :=
  String.ofList (List.replicate times tag) ++ name ++ String.ofList (List.replicate times tag)

theorem tagRepeatedly_eq_tagNames (code name : String) (tag : Char) (times : Nat) :
    tagRepeatedly code name tag times = tagNames code (List.replicate times (name, tag)) := by
  induction times generalizing code with
  | zero => rfl
  | succ times ih => exact ih (tagName code name tag)

theorem padsOf_append (marking others : Marking) (name : String) :
    padsOf (marking ++ others) name = padsOf marking name ++ padsOf others name := by
  simp [padsOf]

theorem padsOf_replicate (times : Nat) (name : String) (tag : Char) (text : String) :
    padsOf (List.replicate times (name, tag)) text =
      if text = name then List.replicate times tag else [] := by
  by_cases named : text = name
  · simp [padsOf, named]
  · simp [padsOf, named, Ne.symm named]

theorem markers_replicate {tag : Char} (marker : IsMarker tag) (times : Nat) (name : String) :
    ∀ pair ∈ List.replicate times (name, tag), IsMarker pair.2 := by
  intro pair member
  rw [List.eq_of_mem_replicate member]
  exact marker

theorem tagRepeatedly_eq_rewrite {tag : Char} (marker : IsMarker tag) (code name : String)
    (times : Nat) :
    tagRepeatedly code name tag times =
      rewrite (fun text => if text = name then surround tag times text else text) code := by
  have pads : padded (padsOf (List.replicate times (name, tag))) =
      fun text => if text = name then surround tag times text else text := by
    funext text
    rw [padded, padsOf_replicate]
    split
    · rw [surround, List.reverse_replicate]
    · simp
  rw [tagRepeatedly_eq_tagNames, tagNames_eq_rewrite (markers_replicate marker times name), pads]

theorem tagRepeatedly_tagRepeatedly (code name other : String) (tag otherTag : Char)
    (times otherTimes : Nat) :
    tagRepeatedly (tagRepeatedly code name tag times) other otherTag otherTimes =
      tagNames code (List.replicate times (name, tag) ++
        List.replicate otherTimes (other, otherTag)) := by
  rw [tagRepeatedly_eq_tagNames, tagRepeatedly_eq_tagNames, tagNames, tagNames, tagNames,
    List.foldl_append]

/-- Both names get their own markers, so none is in the way of the other. -/
theorem tagRepeatedly_comm {tag otherTag : Char} (marker : IsMarker tag)
    (otherMarker : IsMarker otherTag) {name other : String} (differs : other ≠ name)
    (code : String) (times otherTimes : Nat) :
    tagRepeatedly (tagRepeatedly code name tag times) other otherTag otherTimes =
      tagRepeatedly (tagRepeatedly code other otherTag otherTimes) name tag times := by
  let first := List.replicate times (name, tag)
  let second := List.replicate otherTimes (other, otherTag)
  have markers : ∀ pair ∈ first ++ second, IsMarker pair.2 := by
    rw [List.forall_mem_append]
    exact ⟨markers_replicate marker times name, markers_replicate otherMarker otherTimes other⟩
  have same : padsOf (first ++ second) = padsOf (second ++ first) := by
    funext text
    rw [padsOf_append, padsOf_append, padsOf_replicate, padsOf_replicate]
    by_cases named : text = name
    · have unnamed : text ≠ other := fun same => differs (same.symm.trans named)
      rw [if_neg unnamed, List.append_nil, List.nil_append]
    · rw [if_neg named, List.nil_append, List.append_nil]
  calc
    tagRepeatedly (tagRepeatedly code name tag times) other otherTag otherTimes
        = tagNames code (first ++ second) := tagRepeatedly_tagRepeatedly ..
    _ = rewrite (padded (padsOf (first ++ second))) code := tagNames_eq_rewrite markers code
    _ = tagNames code (second ++ first) := by
          rw [same, tagNames_eq_rewrite fun pair member =>
            markers pair (List.perm_append_comm.mem_iff.mp member)]
    _ = tagRepeatedly (tagRepeatedly code other otherTag otherTimes) name tag times :=
          (tagRepeatedly_tagRepeatedly ..).symm

/-- However often a name is tagged, its free-standing occurrences in the code as it was at first get
that many markers on either side and all else stays; so a name that does not stand in the code
changes nothing. Two names are tagged in either order. -/
theorem tagRepeatedly_surrounds {tag : Char} (marker : IsMarker tag) (code name : String)
    (times : Nat) :
    tagRepeatedly code name tag times =
        rewrite (fun text => if text = name then surround tag times text else text) code ∧
      (¬ name.toList <:+: code.toList → tagRepeatedly code name tag times = code) ∧
      ∀ other otherTag, other ≠ name → IsMarker otherTag → ∀ otherTimes,
        tagRepeatedly (tagRepeatedly code name tag times) other otherTag otherTimes =
          tagRepeatedly (tagRepeatedly code other otherTag otherTimes) name tag times := by
  have surrounded := tagRepeatedly_eq_rewrite marker code name times
  refine ⟨surrounded, fun absent => ?_, fun other otherTag differs otherMarker otherTimes => ?_⟩
  · rw [surrounded]
    exact rewrite_of_not_infix absent fun text differs => if_neg differs
  · exact tagRepeatedly_comm marker otherMarker differs code times otherTimes

/-- A name behind a number, a dot, a string and a letter that is not ASCII, and as part of other
names. -/
def crowded : String :=
  "1.a a.a=ä'a'a a_ _a"

theorem tagRepeatedly_surrounds_crowded :
    IsMarker '#' ∧ IsMarker '%' ∧ tagRepeatedly crowded "a" '#' 2 =
        rewrite (fun text => if text = "a" then surround '#' 2 text else text) crowded ∧
      tagRepeatedly crowded "a" '#' 2 = "1.a ##a##.a=ä'a'##a## a_ _a" ∧
      tagRepeatedly crowded "b" '#' 2 = crowded ∧
      tagRepeatedly (tagRepeatedly crowded "a" '#' 2) "ä" '%' 1 =
        tagRepeatedly (tagRepeatedly crowded "ä" '%' 1) "a" '#' 2 := by
  have marker : IsMarker '#' := by decide
  have otherMarker : IsMarker '%' := by decide
  have absent : ¬ "b".toList <:+: crowded.toList := by decide +kernel
  obtain ⟨surrounded, -, comm⟩ := tagRepeatedly_surrounds marker crowded "a" 2
  exact ⟨marker, otherMarker, surrounded, by decide +kernel,
    (tagRepeatedly_surrounds marker crowded "b" 2).2.1 absent,
    comm "ä" '%' (by decide) otherMarker 1⟩

end Tag

end FrameGraph
