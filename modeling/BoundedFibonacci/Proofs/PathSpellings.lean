import BoundedFibonacci.Path
import Mathlib.Data.List.Basic
import Mathlib.Data.List.Induction
import Mathlib.Logic.Relation

/-!
When two texts are the same path. Components are split off at slashes, so what stands before a slash and what stands
after it can be looked at apart, and a text can be respelled on one side without a change on the other.
-/

namespace BoundedFibonacci

theorem segments_ne_nil (s : List Char) : segments s ≠ [] := by
  cases s with
  | nil => simp [segments]
  | cons c s =>
    rw [segments]
    split
    · simp
    · split <;> simp

theorem segments_append_slash (a b : List Char) : segments (a ++ '/' :: b) = segments a ++ segments b := by
  induction a with
  | nil => rfl
  | cons c a ih =>
    rw [List.cons_append, segments, segments, ih]
    split
    · rfl
    · cases ha : segments a with
      | nil => exact absurd ha (segments_ne_nil a)
      | cons s ss => rfl

theorem segments_of_not_mem {s : List Char} (h : '/' ∉ s) : segments s = [s] := by
  induction s with
  | nil => rfl
  | cons c s ih =>
    simp only [List.mem_cons, not_or] at h
    rw [segments, if_neg (Ne.symm h.1), ih h.2]

namespace Path

def below (text : String) : List Component := (segments text.toList).filterMap Component.ofSegment?

theorem components_eq (text : String) : (Path.mk text).components = (Path.mk text).origin ++ below text := rfl

-- A slash after the text leads on from here. After nothing it is the root.
def above (text : String) : List Component := if text = "" then [.root] else (Path.mk text).components

theorem toList_append_slash (a b : String) : (a ++ "/" ++ b).toList = a.toList ++ '/' :: b.toList := by
  simp

theorem below_append_slash (a b : String) : below (a ++ "/" ++ b) = below a ++ below b := by
  rw [below, toList_append_slash, segments_append_slash, List.filterMap_append]
  rfl

theorem origin_append_slash (a b : String) :
    (Path.mk (a ++ "/" ++ b)).origin = if a = "" then [.root] else (Path.mk a).origin := by
  by_cases ha : a = ""
  · simp [ha, origin, isAbsolute]
  · have hne : a.toList ≠ [] := by simpa using ha
    have habsolute : (Path.mk (a ++ "/" ++ b)).isAbsolute = (Path.mk a).isAbsolute := by
      rw [isAbsolute, isAbsolute, toList_append_slash, List.head?_append_of_ne_nil _ hne]
    have hfirst : (segments (a ++ "/" ++ b).toList).head? = (segments a.toList).head? := by
      rw [toList_append_slash, segments_append_slash, List.head?_append_of_ne_nil _ (segments_ne_nil _)]
    rw [if_neg ha, origin, origin, habsolute, hfirst]

theorem components_append_slash (a b : String) : (Path.mk (a ++ "/" ++ b)).components = above a ++ below b := by
  rw [components_eq, below_append_slash, origin_append_slash, above]
  split
  · next ha =>
    rw [ha]
    rfl
  · rw [components_eq, List.append_assoc]

theorem components_skip (a b : String) {s : String} (hs : below s = []) :
    (Path.mk (a ++ "/" ++ (s ++ "/" ++ b))).components = (Path.mk (a ++ "/" ++ b)).components := by
  rw [components_append_slash, components_append_slash, below_append_slash, hs, List.nil_append]

theorem above_of_ne {text : String} (h : text ≠ "") : above text = (Path.mk text).components := if_neg h

/-- One text becomes another by leaving out a slash or a dot that does not count. -/
inductive Respells : Path → Path → Prop
  | doubled (a b : String) : Respells ⟨a ++ "//" ++ b⟩ ⟨a ++ "/" ++ b⟩
  | trailing {a : String} (h : a ≠ "") : Respells ⟨a ++ "/"⟩ ⟨a⟩
  | dotted (a b : String) : Respells ⟨a ++ "/./" ++ b⟩ ⟨a ++ "/" ++ b⟩

variable {p q : Path}

theorem Respells.components_eq (h : Respells p q) : p.components = q.components := by
  cases h with
  | doubled a b =>
    have htext : a ++ "//" ++ b = a ++ "/" ++ ("" ++ "/" ++ b) := by simp [← String.toList_inj]
    rw [htext]
    exact components_skip a b rfl
  | @trailing a ha =>
    have htext : a ++ "/" = a ++ "/" ++ "" := by simp
    rw [htext, components_append_slash, above_of_ne ha]
    exact List.append_nil _
  | dotted a b =>
    have htext : a ++ "/./" ++ b = a ++ "/" ++ ("." ++ "/" ++ b) := by simp [← String.toList_inj]
    rw [htext]
    exact components_skip a b rfl

theorem respells_double (a b : String) : Respells ⟨a ++ "/" ++ "/" ++ b⟩ ⟨a ++ "/" ++ b⟩ := by
  have h := Respells.doubled a b
  have htext : a ++ "/" ++ "/" ++ b = a ++ "//" ++ b := by simp [← String.toList_inj]
  rwa [← htext] at h

theorem Respells.append_slash (h : Respells p q) (b : String) :
    Respells ⟨p.text ++ "/" ++ b⟩ ⟨q.text ++ "/" ++ b⟩ := by
  cases h with
  | doubled x y =>
    have h := Respells.doubled x (y ++ "/" ++ b)
    simpa only [String.append_assoc] using h
  | @trailing x hx => exact respells_double x b
  | dotted x y =>
    have h := Respells.dotted x (y ++ "/" ++ b)
    simpa only [String.append_assoc] using h

abbrev Alike : Path → Path → Prop := Relation.EqvGen Respells

theorem Alike.components_eq (h : Alike p q) : p.components = q.components := by
  induction h with
  | rel p q h => exact h.components_eq
  | refl p => rfl
  | symm p q _ ih => exact ih.symm
  | trans p q r _ _ ihpq ihqr => exact ihpq.trans ihqr

theorem Alike.append_slash (h : Alike p q) (b : String) : Alike ⟨p.text ++ "/" ++ b⟩ ⟨q.text ++ "/" ++ b⟩ := by
  induction h with
  | rel p q h => exact .rel _ _ (h.append_slash b)
  | refl p => exact .refl _
  | symm p q _ ih => exact ih.symm
  | trans p q r _ _ ihpq ihqr => exact ihpq.trans _ _ _ ihqr

theorem alike_append_dot (a : String) : Alike ⟨a ++ "/" ++ "."⟩ ⟨a ++ "/"⟩ := by
  have htrailing : Respells ⟨a ++ "/./"⟩ ⟨a ++ "/" ++ "."⟩ := by
    have h := Respells.trailing (a := a ++ "/" ++ ".") (by simp)
    have htext : a ++ "/" ++ "." ++ "/" = a ++ "/./" := by simp [← String.toList_inj]
    rwa [htext] at h
  have hdotted : Respells ⟨a ++ "/./"⟩ ⟨a ++ "/"⟩ := by
    have h := Respells.dotted a ""
    simpa using h
  exact (Relation.EqvGen.rel _ _ htrailing).symm.trans _ _ _ (.rel _ _ hdotted)

theorem exists_of_endsInSlash (h : p.endsInSlash) : ∃ a : String, p.text = a ++ "/" := by
  obtain ⟨l, hl⟩ := List.getLast?_eq_some_iff.mp (of_decide_eq_true h)
  refine ⟨String.ofList l, ?_⟩
  apply String.toList_inj.mp
  simp [hl]

theorem alike_join (hp : p.text ≠ "") (hq : q.isAbsolute = false) : Alike ⟨p.text ++ "/" ++ q.text⟩ (p.join q) := by
  unfold join
  rw [if_neg (by simp [hq])]
  split
  · next hends =>
    -- No slash is put where one is there already, so the doubled one is left out.
    obtain ⟨a, ha⟩ := exists_of_endsInSlash (hends.resolve_left hp)
    rw [ha]
    exact .rel _ _ (respells_double a q.text)
  · exact .refl _

theorem components_join_of_ne (hp : p.text ≠ "") (hq : q.isAbsolute = false) :
    (p.join q).components = p.components ++ below q.text := by
  rw [← (alike_join hp hq).components_eq, components_append_slash, above_of_ne hp]

theorem empty_join (q : Path) : (Path.mk "").join q = q := by
  simp [join]

theorem components_join (p : Path) {q : Path} (hq : q.origin = []) :
    (p.join q).components = p.components ++ q.components := by
  have hrelative : q.isAbsolute = false := by
    cases habsolute : q.isAbsolute with
    | false => rfl
    | true => simp [origin, habsolute] at hq
  have hbelow : q.components = below q.text := by
    rw [components, hq]
    rfl
  by_cases hp : p.text = ""
  · obtain ⟨text⟩ := p
    obtain rfl : text = "" := hp
    rw [empty_join]
    rfl
  · rw [components_join_of_ne hp hrelative, hbelow]

-- A text is a segment, or a text, a slash and a segment.
@[elab_as_elim]
theorem text_induction {P : String → Prop} (segment : ∀ s : String, '/' ∉ s.toList → P s)
    (append : ∀ a b : String, '/' ∉ b.toList → P a → P (a ++ "/" ++ b)) (text : String) : P text := by
  have hlist (l : List Char) : ∀ b : List Char, '/' ∉ b → P (String.ofList (l ++ b)) := by
    induction l using List.reverseRecOn with
    | nil =>
      intro b hb
      exact segment _ (by simpa using hb)
    | append_singleton l c ih =>
      intro b hb
      by_cases hc : c = '/'
      · have h := append (String.ofList l) (String.ofList b) (by simpa using hb) (by simpa using ih [] (by simp))
        have htext : String.ofList (l ++ [c] ++ b) = String.ofList l ++ "/" ++ String.ofList b := by
          simp [← String.toList_inj, hc]
        rwa [htext]
      · have h := ih (c :: b) (by simp [hb, Ne.symm hc])
        simpa using h
  have h := hlist text.toList [] (by simp)
  simpa using h

theorem isAbsolute_of_not_mem {s : String} (h : '/' ∉ s.toList) : (Path.mk s).isAbsolute = false := by
  apply decide_eq_false
  intro hhead
  exact h (List.mem_of_head? hhead)

theorem below_of_not_mem {s : String} (h : '/' ∉ s.toList) : below s = (Component.ofSegment? s.toList).toList := by
  rw [below, segments_of_not_mem h]
  cases hs : Component.ofSegment? s.toList <;> simp [hs]

theorem toList_eq_dot_iff {s : String} : s.toList = ['.'] ↔ s = "." := by
  rw [← String.toList_inj]
  rfl

theorem origin_of_not_mem {s : String} (h : '/' ∉ s.toList) :
    (Path.mk s).origin = if s = "." then [.current] else [] := by
  simp [origin, isAbsolute_of_not_mem h, segments_of_not_mem h, toList_eq_dot_iff]

end Path

namespace Component

def text : Component → String
  | .root => "/"
  | .current => "."
  | .parent => ".."
  | .normal name => name

theorem ofSegment?_cases (s : String) :
    (ofSegment? s.toList = none ∧ (s = "" ∨ s = ".")) ∨ ∃ c, ofSegment? s.toList = some c ∧ c.text = s ∧ s ≠ "." := by
  have hempty : s.toList = [] ↔ s = "" := by simp
  have hdots : s.toList = ['.', '.'] ↔ s = ".." := by
    rw [← String.toList_inj]
    rfl
  unfold ofSegment?
  split_ifs with hnone hparent
  · left
    rw [hempty, Path.toList_eq_dot_iff] at hnone
    exact ⟨rfl, hnone⟩
  · right
    refine ⟨.parent, rfl, (hdots.mp hparent).symm, ?_⟩
    rintro rfl
    exact hnone (.inr rfl)
  · right
    refine ⟨_, rfl, String.ofList_toList, ?_⟩
    rintro rfl
    exact hnone (.inr rfl)

end Component

namespace Path

theorem segment_cases {s : String} (h : '/' ∉ s.toList) :
    (s = "" ∨ s = ".") ∧ below s = [] ∨
      ∃ c : Component, c.text = s ∧ below s = [c] ∧ (Path.mk s).components = [c] := by
  rw [below_of_not_mem h]
  obtain ⟨hnone, hs⟩ | ⟨c, hc, htext, hdot⟩ := Component.ofSegment?_cases s
  · rw [hnone]
    exact .inl ⟨hs, rfl⟩
  · refine .inr ⟨c, htext, by rw [hc]; rfl, ?_⟩
    rw [components_eq, origin_of_not_mem h, if_neg hdot, below_of_not_mem h, hc]
    rfl

theorem components_eq_nil_iff (text : String) : (Path.mk text).components = [] ↔ text = "" := by
  induction text using text_induction with
  | segment s hs =>
    obtain ⟨rfl | rfl, -⟩ | ⟨c, -, hbelow, hc⟩ := segment_cases hs
    · decide
    · decide
    · constructor
      · intro hnil
        rw [hc] at hnil
        cases hnil
      · rintro rfl
        cases hbelow
  | append a b hb ih =>
    have habove : above a ≠ [] := by
      by_cases ha : a = ""
      · simp [above, ha]
      · rwa [above_of_ne ha, ne_eq, ih]
    rw [components_append_slash]
    simp [habove]

def rebuilt (cs : List Component) : Path := cs.foldl (fun p c => p.join ⟨c.text⟩) ⟨""⟩

theorem rebuilt_concat (cs : List Component) (c : Component) : rebuilt (cs ++ [c]) = (rebuilt cs).join ⟨c.text⟩ :=
  List.foldl_append

theorem alike_rebuilt_above {a : String} (h : Alike ⟨a⟩ (rebuilt (Path.mk a).components)) :
    Alike ⟨a ++ "/"⟩ (rebuilt (above a)) := by
  by_cases ha : a = ""
  · subst ha
    exact .refl _
  · rw [above_of_ne ha]
    exact (Relation.EqvGen.rel _ _ (.trailing ha)).trans _ _ _ h

-- The induction takes the last segment off. An empty segment and a dot are respelled away, every other one is joined.
theorem alike_rebuilt (text : String) : Alike ⟨text⟩ (rebuilt (Path.mk text).components) := by
  induction text using text_induction with
  | segment s hs =>
    obtain ⟨rfl | rfl, -⟩ | ⟨c, htext, -, hc⟩ := segment_cases hs
    · exact .refl _
    · exact .refl _
    · have hjoin : rebuilt [c] = ⟨s⟩ := by
        rw [← List.nil_append [c], rebuilt_concat, htext]
        exact empty_join ⟨s⟩
      rw [hc, hjoin]
      exact .refl _
  | append a b hb ih =>
    have habove := alike_rebuilt_above ih
    rw [components_append_slash]
    obtain ⟨hs, hbelow⟩ | ⟨c, htext, hbelow, -⟩ := segment_cases hb
    · rw [hbelow, List.append_nil]
      rcases hs with rfl | rfl
      · simpa using habove
      · exact (alike_append_dot a).trans _ _ _ habove
    · have hne : (rebuilt (above a)).text ≠ "" := by
        intro hempty
        have hcomponents := habove.components_eq
        rw [(components_eq_nil_iff _).mpr hempty, components_eq_nil_iff] at hcomponents
        simp at hcomponents
      rw [hbelow, rebuilt_concat, htext]
      have hdoubled := (Relation.EqvGen.rel _ _ (respells_double a b)).symm
      have hbefore := habove.append_slash b
      exact hdoubled.trans _ _ _ (hbefore.trans _ _ _ (alike_join hne (isAbsolute_of_not_mem hb)))

theorem same_iff_alike : p.same q ↔ Alike p q := by
  constructor
  · intro h
    have hcomponents : p.components = q.components := of_decide_eq_true h
    have hp := alike_rebuilt p.text
    rw [hcomponents] at hp
    exact hp.trans _ _ _ (alike_rebuilt q.text).symm
  · intro h
    exact decide_eq_true h.components_eq

end Path

end BoundedFibonacci
