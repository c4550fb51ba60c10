import BoundedFibonacci.Proofs.DistinctKeys
import BoundedFibonacci.Proofs.WrittenScalars

/-!
Texts made of lines `key = value`, some of them under a header, and the document that is read from them. Keys and values
are given by the text that follows them, so that lines compose.
-/

namespace BoundedFibonacci.Toml

def Key.before (name : String) (rest : List Char) : Key := ⟨name, ⟨name.toList ++ rest, rest⟩⟩

def Bare (name : String) : Prop := name.toList ≠ [] ∧ ∀ c ∈ name.toList, isBareKey c = true

instance (name : String) : Decidable (Bare name) :=
  haveI := List.decidableBAll (fun c => isBareKey c = true) name.toList
  inferInstanceAs (Decidable (_ ∧ _))

section Keys

variable {name : String} {c d : Char} {r rest : List Char}

theorem Bare.eq_cons (h : Bare name) : ∃ c r, name.toList = c :: r ∧ isBareKey c = true := by
  obtain ⟨c, r, heq⟩ := List.exists_cons_of_ne_nil h.1
  exact ⟨c, r, heq, h.2 c (heq ▸ List.mem_cons_self)⟩

theorem skipBlanks_cons (h : isBlank c = false) : skipBlanks (c :: r) = c :: r := by
  simp [skipBlanks, h]

theorem isBlank_of_isBareKey (hc : isBareKey c = true) : isBlank c = false :=
  isBlank_of_class hc (by decide) (by decide)

theorem key?_bare (hname : Bare name) (hc : isBareKey c = false) :
    key? (name.toList ++ c :: r) = some (.before name (c :: r), c :: r) := by
  obtain ⟨d, ds, heq, hd⟩ := hname.eq_cons
  obtain ⟨hne, hbare⟩ := hname
  have htake : (name.toList ++ c :: r).takeWhile isBareKey = name.toList := by
    rw [List.takeWhile_append_of_pos hbare, List.takeWhile_cons_of_neg (by simp [hc]), List.append_nil]
  have hdrop : (name.toList ++ c :: r).dropWhile isBareKey = c :: r := by
    rw [List.dropWhile_append_of_pos hbare, List.dropWhile_cons_of_neg (by simp [hc])]
  have hstring : lineString? (name.toList ++ c :: r) = none := by
    rw [heq]
    exact lineString?_eq_none (ne_of_class hd (by decide)) (ne_of_class hd (by decide))
  rw [key?, hstring]
  simp [htake, hdrop, hne, Key.before]

theorem keyPath?_bare (hname : Bare name) (hc : isBareKey c = false) (hnext : skipBlanks (c :: r) = d :: rest)
    (hd : d ≠ '.') (most : ℕ) :
    keyPath? (most + 1) (name.toList ++ c :: r) = some (⟨[], .before name (c :: r)⟩, d :: rest) := by
  have hskip : skipBlanks (name.toList ++ c :: r) = name.toList ++ c :: r := by
    obtain ⟨x, xs, heq, hx⟩ := hname.eq_cons
    rw [heq]
    exact skipBlanks_cons (isBlank_of_isBareKey hx)
  rw [keyPath?, hskip, key?_bare hname hc]
  simp only [Option.bind_eq_bind, Option.bind_some, hnext]
  split
  · next heq => exact absurd (List.cons.inj heq).1 hd
  · rfl

end Keys

structure Field where
  name : String
  value : Scalar

namespace Field

def textAfterKey (f : Field) (rest : List Char) : List Char := ' ' :: '=' :: ' ' :: (f.value.text ++ '\n' :: rest)

def write (f : Field) (rest : List Char) : List Char := f.name.toList ++ f.textAfterKey rest

def Plain (f : Field) : Prop := Bare f.name ∧ f.value.Plain

def entry (f : Field) (rest : List Char) : Key × Value :=
  (.before f.name (f.textAfterKey rest), f.value.before ('\n' :: rest))

def writeAll (fs : List Field) (rest : List Char) : List Char := fs.foldr write rest

def entries : List Field → List Char → Entries
  | [], _ => []
  | f :: fs, rest => f.entry (writeAll fs rest) :: entries fs rest

end Field

def Assignment.ofEntry (e : Key × Value) : Assignment := ⟨⟨[], e.1⟩, e.2⟩

section Statements

variable {f : Field} {name : String} {c : Char} {cs r rest : List Char} {s : Statement} {ss : List Statement}

theorem Field.write_eq_cons (hf : f.Plain) (rest : List Char) :
    ∃ c r, f.write rest = c :: r ∧ isBareKey c = true ∧ rest.length ≤ r.length := by
  obtain ⟨c, r, heq, hc⟩ := hf.1.eq_cons
  refine ⟨c, r ++ f.textAfterKey rest, by rw [write, heq, List.cons_append], hc, ?_⟩
  simp only [textAfterKey, List.length_append, List.length_cons]
  omega

theorem assignment?_bare (hname : Bare name) (hskip : skipBlanks cs = cs) (most fuel depth : ℕ) :
    assignment? (most + 1) (fuel + 1) depth (name.toList ++ ' ' :: '=' :: ' ' :: cs) =
      (value? (most + 1) fuel depth cs).bind fun x =>
        some (⟨⟨[], .before name (' ' :: '=' :: ' ' :: cs)⟩, x.1⟩, x.2) := by
  have hkey : keyPath? (most + 1) (name.toList ++ ' ' :: '=' :: ' ' :: cs) =
      some (⟨[], .before name (' ' :: '=' :: ' ' :: cs)⟩, '=' :: ' ' :: cs) :=
    keyPath?_bare hname (by decide) rfl (by decide) most
  have hblank : skipBlanks (' ' :: cs) = cs := hskip
  rw [assignment?, hkey]
  simp only [Option.bind_eq_bind, Option.bind_some, char?, if_true, hblank]

theorem statement?_bare (hname : Bare name) (hskip : skipBlanks cs = cs) (most fuel : ℕ) :
    statement? (most + 1) (fuel + 1) (name.toList ++ ' ' :: '=' :: ' ' :: cs) =
      (value? (most + 1) fuel 0 cs).bind fun x =>
        some (.assignment ⟨⟨[], .before name (' ' :: '=' :: ' ' :: cs)⟩, x.1⟩, x.2) := by
  obtain ⟨c, r, heq, hc⟩ := hname.eq_cons
  have hopen : c ≠ '[' := ne_of_class hc (by decide)
  have hcons : name.toList ++ ' ' :: '=' :: ' ' :: cs = c :: (r ++ ' ' :: '=' :: ' ' :: cs) := by
    rw [heq, List.cons_append]
  unfold statement?
  split
  · next h => exact absurd (List.cons.inj (hcons.symm.trans h)).1 hopen
  · next h => exact absurd (List.cons.inj (hcons.symm.trans h)).1 hopen
  · rw [assignment?_bare hname hskip, Option.bind_eq_bind, Option.bind_assoc]
    rfl

theorem statement?_field (hf : f.Plain) (most fuel : ℕ) :
    statement? (most + 1) (fuel + 2) (f.write rest) = some (.assignment (.ofEntry (f.entry rest)), '\n' :: rest) := by
  have hskip : skipBlanks (f.value.text ++ '\n' :: rest) = f.value.text ++ '\n' :: rest := by
    obtain ⟨c, r, heq, -, -, hblank⟩ := Scalar.text_eq_cons hf.2
    rw [heq]
    exact skipBlanks_cons hblank
  rw [Field.write, Field.textAfterKey, statement?_bare hf.1 hskip, Scalar.value?_text hf.2]
  rfl

def header (name : String) (rest : List Char) : List Char := '[' :: (name.toList ++ ']' :: '\n' :: rest)

def headerStatement (name : String) (rest : List Char) : Statement :=
  .table ⟨header name rest, '\n' :: rest⟩ ⟨[], .before name (']' :: '\n' :: rest)⟩

theorem statement?_header (hname : Bare name) (most fuel : ℕ) :
    statement? (most + 1) fuel (header name rest) = some (headerStatement name rest, '\n' :: rest) := by
  have hkey : keyPath? (most + 1) (name.toList ++ ']' :: '\n' :: rest) =
      some (⟨[], .before name (']' :: '\n' :: rest)⟩, ']' :: '\n' :: rest) :=
    keyPath?_bare hname (by decide) rfl (by decide) most
  unfold statement?
  split
  · next h =>
    obtain ⟨c, r, heq, hc⟩ := hname.eq_cons
    rw [header, heq] at h
    exact absurd (List.cons.inj (List.cons.inj h).2).1 (ne_of_class hc (by decide))
  · next h =>
    obtain rfl := (List.cons.inj h).2
    rw [hkey]
    rfl
  · next h => exact absurd rfl (h _)

-- The text consists of the given statements, whichever limit there is and however generous the fuel.
def Reads (cs : List Char) (ss : List Statement) : Prop :=
  ∀ most fuel, cs.length + 3 ≤ fuel → statements? (most + 1) fuel cs = some ss

theorem Reads.nil : Reads [] [] := by
  intro most fuel hfuel
  obtain ⟨k, rfl⟩ := Nat.exists_eq_add_of_le' (Nat.one_le_of_lt hfuel)
  rfl

theorem Reads.blank (h : Reads cs ss) : Reads ('\n' :: cs) ss := by
  intro most fuel hfuel
  rw [List.length_cons] at hfuel
  obtain ⟨k, rfl⟩ := Nat.exists_eq_add_of_le' (Nat.one_le_of_lt hfuel)
  exact h most k (by omega)

theorem lineEnd?_eq_none (hblank : isBlank c = false) (hc : c ≠ '#' ∧ c ≠ '\n' ∧ c ≠ '\r') :
    lineEnd? (c :: r) = none := by
  obtain ⟨hmark, hfeed, hreturn⟩ := hc
  have hcomment : skipComment (c :: r) = c :: r := by
    rw [skipComment]
    intro t h
    exact hmark (List.cons.inj h).1
  have hnewline : newline? (c :: r) = none := by
    rw [newline?]
    · intro t h
      exact hfeed (List.cons.inj h).1
    · intro t h
      exact hreturn (List.cons.inj h).1
  simp only [lineEnd?, skipBlanks_cons hblank, hcomment, hnewline]

theorem statements?_cons (hblank : isBlank c = false) (hc : c ≠ '#' ∧ c ≠ '\n' ∧ c ≠ '\r') (most fuel : ℕ) :
    statements? most (fuel + 1) (c :: r) =
      (statement? most fuel (c :: r)).bind fun x =>
        (lineEnd? x.2).bind fun cs => (statements? most fuel cs).bind fun ss => some (x.1 :: ss) := by
  rw [statements?]
  simp only [skipBlanks_cons hblank, lineEnd?_eq_none hblank hc, Option.bind_eq_bind]

theorem Reads.cons (hblank : isBlank c = false) (hc : c ≠ '#' ∧ c ≠ '\n' ∧ c ≠ '\r')
    (hs : ∀ most fuel, statement? (most + 1) (fuel + 2) (c :: r) = some (s, '\n' :: rest))
    (hlen : rest.length ≤ r.length) (h : Reads rest ss) : Reads (c :: r) (s :: ss) := by
  intro most fuel hfuel
  rw [List.length_cons] at hfuel
  obtain ⟨k, rfl⟩ := Nat.exists_eq_add_of_le' (show 3 ≤ fuel by omega)
  have hend : lineEnd? ('\n' :: rest) = some rest := rfl
  rw [statements?_cons hblank hc, hs]
  simp only [Option.bind_some, hend, h most (k + 2) (by omega)]

theorem Reads.field (hf : f.Plain) (h : Reads rest ss) :
    Reads (f.write rest) (.assignment (.ofEntry (f.entry rest)) :: ss) := by
  obtain ⟨c, r, heq, hc, hlen⟩ := f.write_eq_cons hf rest
  have hne {d : Char} (hd : isBareKey d = false) : c ≠ d := ne_of_class hc hd
  rw [heq]
  apply Reads.cons (isBlank_of_isBareKey hc) ⟨hne (by decide), hne (by decide), hne (by decide)⟩ _ hlen h
  intro most fuel
  rw [← heq, statement?_field hf]

theorem Reads.fields {fs : List Field} (hfs : ∀ f ∈ fs, f.Plain) (h : Reads rest ss) :
    Reads (Field.writeAll fs rest)
      ((Field.entries fs rest).map (fun e => .assignment (.ofEntry e)) ++ ss) := by
  induction fs with
  | nil => exact h
  | cons f fs ih =>
    obtain ⟨hf, hfs⟩ := List.forall_mem_cons.mp hfs
    exact Reads.field hf (ih hfs)

theorem Reads.header (hname : Bare name) (h : Reads rest ss) :
    Reads (header name rest) (headerStatement name rest :: ss) := by
  apply Reads.cons (by decide) (by decide) _ _ h
  · intro most fuel
    exact statement?_header hname most (fuel + 2)
  · simp only [List.length_append, List.length_cons]
    omega

end Statements

section Documents

variable {fs gs : List Field} {name text : String} {cs rest : List Char} {ss : List Statement}

theorem foldlM_assign {es added : Entries} (h : ((es ++ added).map (·.1.name)).Nodup) :
    (added.map Assignment.ofEntry).foldlM Entries.assign es = some (es ++ added) := by
  induction added generalizing es with
  | nil => simp
  | cons e added ih =>
    have hfresh : e.1.name ∉ es.map (·.1.name) := by
      intro hmem
      rw [List.map_append, List.nodup_append] at h
      obtain ⟨-, -, hapart⟩ := h
      exact hapart _ hmem _ List.mem_cons_self rfl
    have hplace : es.assign (.ofEntry e) = some (es ++ [e]) := by
      simp [Entries.assign, Assignment.ofEntry, Entries.place, Entries.get?_eq_none_iff.mpr hfresh]
    have happend : es ++ e :: added = es ++ [e] ++ added := by simp
    rw [happend] at h ⊢
    rw [List.map_cons, List.foldlM_cons, hplace, Option.bind_eq_bind, Option.bind_some, ih h]

theorem Section.split_assignments (es : Entries) (ss : List Statement) :
    Section.split (es.map (fun e => .assignment (.ofEntry e)) ++ ss) =
      (es.map .ofEntry ++ (Section.split ss).1, (Section.split ss).2) := by
  induction es with
  | nil => rfl
  | cons e es ih => simp only [List.map_cons, List.cons_append, Section.split, ih]

theorem Statement.parse?_of_reads (h : Reads text.toList ss) (hmark : text.toList.head? ≠ some '\ufeff') (most : ℕ) :
    Statement.parse? (most + 1) text = some ss := by
  rw [Statement.parse?, if_neg hmark]
  exact h most _ (by omega)

theorem Field.writeAll_append (fs gs : List Field) (rest : List Char) :
    writeAll (fs ++ gs) rest = writeAll fs (writeAll gs rest) :=
  List.foldr_append

theorem Field.entries_append (fs gs : List Field) (rest : List Char) :
    entries (fs ++ gs) rest = entries fs (writeAll gs rest) ++ entries gs rest := by
  induction fs with
  | nil => rfl
  | cons f fs ih => rw [List.cons_append, entries, ih, writeAll_append, entries, List.cons_append]

theorem Field.map_name_entries (fs : List Field) (rest : List Char) :
    (Field.entries fs rest).map (·.1.name) = fs.map Field.name := by
  induction fs with
  | nil => rfl
  | cons f fs ih => rw [entries, List.map_cons, ih]; rfl

theorem Field.head?_writeAll (hfs : ∀ f ∈ fs, f.Plain) (hrest : rest.head? ≠ some '\ufeff') :
    (writeAll fs rest).head? ≠ some '\ufeff' := by
  cases fs with
  | nil => exact hrest
  | cons f fs =>
    obtain ⟨c, r, heq, hc, -⟩ := f.write_eq_cons (hfs f List.mem_cons_self) (writeAll fs rest)
    rw [writeAll, List.foldr_cons, ← writeAll, heq, List.head?_cons, ne_eq, Option.some.injEq]
    exact ne_of_class hc (by decide)

theorem foldlM_assign_entries (hnodup : (fs.map Field.name).Nodup) :
    ((Field.entries fs rest).map Assignment.ofEntry).foldlM Entries.assign [] = some (Field.entries fs rest) := by
  rw [← Field.map_name_entries fs rest, ← List.nil_append (Field.entries fs rest)] at hnodup
  exact foldlM_assign hnodup

theorem parse?_writeAll (hfs : ∀ f ∈ fs, f.Plain) (hnodup : (fs.map Field.name).Nodup) (hrest : Reads rest ss)
    (hmark : rest.head? ≠ some '\ufeff') (htop : (Section.split ss).1 = [])
    (htext : text.toList = Field.writeAll fs rest) :
    parse? text = (Section.split ss).2.foldlM Section.addTo (Field.entries fs rest) := by
  have hreads := Reads.fields hfs hrest
  have hhead := Field.head?_writeAll hfs hmark
  rw [← htext] at hreads hhead
  rw [parse?, parseWithin?, deepest, Statement.parse?_of_reads hreads hhead, Option.bind_eq_bind, Option.bind_some,
    Section.split_assignments, htop, List.append_nil]
  dsimp only
  rw [foldlM_assign_entries hnodup]
  rfl

theorem Section.addTo_of_fresh {es entries : Entries} {s : Section} (hsteps : s.path.steps = [])
    (hkind : s.isElement = false) (hfresh : s.path.last.name ∉ es.map (·.1.name))
    (hbody : s.body.foldlM Entries.assign [] = some entries) :
    Section.addTo es s = some (es ++ [(s.path.last, .table .header (some s.reach) entries)]) := by
  simp [Section.addTo, Entries.within, hsteps, hkind, Entries.openTable, Entries.get?_eq_none_iff.mpr hfresh,
    Section.fill, hbody]

def tableSection (name : String) (fs : List Field) : Section :=
  ⟨⟨header name (Field.writeAll fs []), '\n' :: Field.writeAll fs []⟩,
    ⟨[], .before name (']' :: '\n' :: Field.writeAll fs [])⟩, false, (Field.entries fs []).map .ofEntry⟩

theorem parse?_table (hfs : ∀ f ∈ fs, f.Plain) (hgs : ∀ g ∈ gs, g.Plain) (hname : Bare name)
    (hnodup : (name :: fs.map Field.name).Nodup) (hnodup' : (gs.map Field.name).Nodup)
    (hrest : rest = header name (Field.writeAll gs []) ∨ rest = '\n' :: header name (Field.writeAll gs []))
    (htext : text.toList = Field.writeAll fs rest) :
    ∃ key region, key.name = name ∧
      parse? text = some (Field.entries fs rest ++ [(key, .table .header region (Field.entries gs []))]) := by
  obtain ⟨hfresh, hdistinct⟩ := List.nodup_cons.mp hnodup
  have hbody := Reads.header hname (Reads.fields hgs Reads.nil)
  have hreads : Reads rest (headerStatement name (Field.writeAll gs []) ::
      ((Field.entries gs []).map (fun e => .assignment (.ofEntry e)) ++ [])) := by
    rcases hrest with rfl | rfl
    · exact hbody
    · exact hbody.blank
  have hmark : rest.head? ≠ some '\ufeff' := by
    rcases hrest with rfl | rfl <;> simp [header]
  have hsplit : Section.split (headerStatement name (Field.writeAll gs []) ::
      ((Field.entries gs []).map (fun e => .assignment (.ofEntry e)) ++ [])) = ([], [tableSection name gs]) := by
    rw [headerStatement, Section.split, Section.split_assignments, Section.split, List.append_nil]
    rfl
  have hadd : Section.addTo (Field.entries fs rest) (tableSection name gs) = _ :=
    Section.addTo_of_fresh rfl rfl (by rwa [Field.map_name_entries]) (foldlM_assign_entries hnodup')
  refine ⟨(tableSection name gs).path.last, some (tableSection name gs).reach, rfl, ?_⟩
  rw [parse?_writeAll hfs hdistinct hreads hmark (by rw [hsplit]) htext, hsplit, List.foldlM_cons, hadd]
  rfl

end Documents

end BoundedFibonacci.Toml
