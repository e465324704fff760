import MathMarkup.Proofs.Faultless
import MathMarkup.Proofs.MarkupReader

/-!
# Element trees

The trees of markup (`Markup.nodes`), without going through text, and with it: markup without a
fault, whose names are made of the characters of names, is read as these trees
(`Markup.read?_of_read`).

The proof follows the writer.  Whatever is written between two tags takes the reader from one state
between tags to another, with the same elements open and the trees of what was written added
(`Markup.reads_write`).
-/

namespace MathMarkup

/-! ## The trees of markup -/

/-- The class of an element as an attribute. -/
def Tag.styleAttribute (t : Tag) : KeyedList String :=
  t.style.toList.map fun style => ("class", style)

/-- A tag that is made of names. -/
def Tag.Named (t : Tag) : Prop :=
  t.name ≠ "" ∧ IsName t.name ∧ ∀ style ∈ t.style, IsName style

namespace Markup

mutual

/-- The trees of a piece of markup.  A fault has none. -/
def nodes : Markup → List Node
  | .element tag attributes children =>
    [.element tag.name (tag.styleAttribute ++ attributes) (forest children)]
  | .text content => content.toList.map .char
  | .fault _ => []

/-- The trees of pieces of markup. -/
def forest : List Markup → List Node
  | [] => []
  | m :: ms => m.nodes ++ forest ms

end

@[simp] theorem forest_nil : forest [] = [] := rfl

@[simp] theorem forest_cons (m : Markup) (ms : List Markup) :
    forest (m :: ms) = m.nodes ++ forest ms := rfl

@[simp] theorem forest_append (ms ms' : List Markup) :
    forest (ms ++ ms') = forest ms ++ forest ms' := by
  induction ms with
  | nil => rfl
  | cons m ms ih => rw [List.cons_append, forest_cons, ih, forest_cons, List.append_assoc]

theorem nodes_leaf (tag : Tag) (attributes : KeyedList String) (content : Option String) :
    (leaf tag attributes content).nodes =
      [.element tag.name (tag.styleAttribute ++ attributes)
        ((content.getD "").toList.map .char)] := by
  cases content with
  | none => rfl
  | some s => simp [leaf, nodes, forest]

mutual

/-- Markup whose names and classes are made of the characters of names. -/
def Named : Markup → Prop
  | .element tag attributes children =>
    tag.Named ∧ (∀ key ∈ attributes.keys, IsName key) ∧ AllNamed children
  | .text _ => True
  | .fault _ => True

/-- Pieces of markup whose names and classes are made of the characters of names. -/
def AllNamed : List Markup → Prop
  | [] => True
  | m :: ms => m.Named ∧ AllNamed ms

end

end Markup

/-! ## Going through trees -/

namespace Node

mutual

/-- What a function finds in the elements of a tree, from the outside to the inside. -/
def select {α : Type} (f : String → KeyedList String → List Node → Option α) : Node → List α
  | .element name attributes children =>
    (f name attributes children).toList ++ selectAll f children
  | .char _ => []

/-- What a function finds in the elements of trees. -/
def selectAll {α : Type} (f : String → KeyedList String → List Node → Option α) :
    List Node → List α
  | [] => []
  | n :: ns => n.select f ++ selectAll f ns

end

section

variable {α : Type} (f : String → KeyedList String → List Node → Option α)

@[simp] theorem selectAll_append (ns ms : List Node) :
    selectAll f (ns ++ ms) = selectAll f ns ++ selectAll f ms := by
  induction ns with
  | nil => rfl
  | cons n ns ih => rw [List.cons_append, selectAll, ih, selectAll, List.append_assoc]

@[simp] theorem selectAll_element (name : String) (attributes : KeyedList String)
    (children : List Node) :
    selectAll f [.element name attributes children] =
      (f name attributes children).toList ++ selectAll f children := by
  simp [selectAll, select]

@[simp] theorem selectAll_chars (cs : List Char) : selectAll f (cs.map .char) = [] := by
  induction cs with
  | nil => rfl
  | cons c cs ih => simpa [selectAll, select] using ih

end

end Node

/-! ## Reading what was written -/

namespace Reader

/-- The reader gets from one state to another by a text. -/
def Reads (r : Reader) (s : String) (r' : Reader) : Prop :=
  r.run s.toList = some r'

theorem Reads.append {r r' r'' : Reader} {a b : String} (ha : r.Reads a r') (hb : r'.Reads b r'') :
    r.Reads (a ++ b) r'' := by
  unfold Reads at *
  rw [String.toList_append, run_append, ha]
  exact hb

/-- Characters that each add to the state, written one after another.  `write` says what is written
for a character, and `add` what it adds. -/
theorem run_flatMap {α : Type} (state : α → Reader) (add : α → Char → α) (write : Char → List Char)
    {cs : List Char} (h : ∀ c ∈ cs, ∀ a, (state a).run (write c) = some (state (add a c))) (a : α) :
    (state a).run (cs.flatMap write) = some (state (cs.foldl add a)) := by
  induction cs generalizing a with
  | nil => rfl
  | cons c cs ih =>
    rw [List.forall_mem_cons] at h
    rw [List.flatMap_cons, run_append, h.1 a]
    exact ih h.2 (add a c)

theorem foldl_push (s : String) (cs : List Char) :
    cs.foldl String.push s = s ++ String.ofList cs := by
  induction cs generalizing s with
  | nil => simp
  | cons c cs ih => rw [List.foldl_cons, ih, ← String.toList_inj]; simp

theorem foldl_char (ns : List Node) (cs : List Char) :
    cs.foldl (fun ns c => ns ++ [.char c]) ns = ns ++ cs.map .char := by
  induction cs generalizing ns with
  | nil => simp
  | cons c cs ih => rw [List.foldl_cons, ih]; simp

/-- A text that is added to the state as it stands. -/
theorem reads_plain (state : String → Reader) {s : String}
    (h : ∀ c ∈ s.toList, ∀ a, (state a).step c = some (state (a.push c))) (a : String) :
    (state a).Reads s (state (a ++ s)) := by
  have hchar : ∀ c ∈ s.toList, ∀ a, (state a).run [c] = some (state (a.push c)) := by
    intro c hc a
    rw [run, List.foldlM_cons, h c hc a]
    rfl
  have hrun := run_flatMap state String.push (fun c => [c]) hchar a
  rw [List.flatMap_singleton', foldl_push, String.ofList_toList] at hrun
  exact hrun

theorem run_cons {r r' : Reader} {c : Char} (h : r.step c = some r') (cs : List Char) :
    r.run (c :: cs) = r'.run cs := by
  rw [run, List.foldlM_cons, h]
  rfl

theorem step_of_le {c : Char} (h : c.toNat ≤ 0x7F) (r : Reader) : r.step c = r.advance c :=
  if_pos h

section

variable {ns : List Node} {fs : List Frame}

/-! ### Names -/

/-- A name in a phase that takes its characters. -/
theorem reads_name (phase : String → Phase)
    (hphase : ∀ a c, isNameChar c = true →
      advance ⟨phase a, ns, fs⟩ c = some ⟨phase (a.push c), ns, fs⟩)
    {s : String} (hs : IsName s) (a : String) :
    Reads ⟨phase a, ns, fs⟩ s ⟨phase (a ++ s), ns, fs⟩ := by
  refine reads_plain (fun a => ⟨phase a, ns, fs⟩) (fun c hc a => ?_) a
  rw [step_of_le (toNat_le_of_isNameChar (hs c hc))]
  exact hphase a c (hs c hc)

/-- The name after `<`, which has a first character. -/
theorem reads_tag {s : String} (hs : IsName s) (hne : s ≠ "") :
    Reads ⟨.tag, ns, fs⟩ s ⟨.startName s, ns, fs⟩ := by
  obtain ⟨c, cs, hcs⟩ := List.exists_cons_of_ne_nil (mt String.toList_eq_nil_iff.mp hne)
  have hc : isNameChar c = true := hs c (by simp [hcs])
  have hrest : IsName (String.ofList cs) := fun d hd => hs d (by simp_all)
  have hfirst : step ⟨.tag, ns, fs⟩ c = some ⟨.startName ("".push c), ns, fs⟩ := by
    rw [step_of_le (toNat_le_of_isNameChar hc)]
    exact if_pos hc
  have hread : Reads ⟨.startName ("".push c), ns, fs⟩ (String.ofList cs)
      ⟨.startName ("".push c ++ String.ofList cs), ns, fs⟩ :=
    reads_name .startName (fun _ _ hc => if_pos hc) hrest _
  have hs' : "".push c ++ String.ofList cs = s := by
    rw [← String.toList_inj, hcs]
    simp
  unfold Reads at *
  rw [hcs, run_cons hfirst, ← hs']
  rwa [String.toList_ofList] at hread

/-! ### Texts and values -/

/-- A reference in a state from which `&` leads to one. -/
theorem run_reference (base : Reader) (reference : String → Reader) (done : Char → Reader)
    (hstart : base.step '&' = some (reference ""))
    (hpush : ∀ name d, Text.isRefChar d = true →
      (reference name).advance d = some (reference (name.push d)))
    (hend : ∀ name, (reference name).step ';' = (Text.referent? name).map done)
    {name : String} {c : Char} (hname : ∀ d ∈ name.toList, Text.isRefChar d = true)
    (hc : Text.referent? name = some c) :
    base.run ('&' :: name.toList ++ [';']) = some (done c) := by
  have hread : (reference "").Reads name (reference ("" ++ name)) := by
    refine reads_plain reference (fun d hd a => ?_) ""
    rw [step_of_le (Text.toNat_le_of_isRefChar (hname d hd))]
    exact hpush a d (hname d hd)
  rw [String.empty_append] at hread
  rw [List.cons_append, run_cons hstart, run_append, hread]
  show (reference name).run [';'] = some (done c)
  rw [run, List.foldlM_cons, hend, hc]
  rfl

theorem run_escapeTextChar (c : Char) :
    run ⟨.content, ns, fs⟩ (Text.escapeTextChar c) = some ⟨.content, ns ++ [.char c], fs⟩ := by
  rcases Text.escapeTextChar_cases c with ⟨h, hle, hamp, hlt, hgt⟩ | ⟨name, h, hname, hc⟩
  · rw [h]
    refine run_cons ?_ []
    rw [step_of_le hle]
    show (if c = '<' then _ else if c = '&' then _ else if c = '>' then _ else _) = _
    rw [if_neg hlt, if_neg hamp, if_neg hgt]
  · rw [h]
    exact run_reference ⟨.content, ns, fs⟩ (fun name => ⟨.reference name, ns, fs⟩)
      (fun d => ⟨.content, ns ++ [.char d], fs⟩) rfl (fun _ _ hd => if_pos hd)
      (fun _ => rfl) hname hc

theorem reads_escapeText (s : String) :
    Reads ⟨.content, ns, fs⟩ (Text.escapeText s)
      ⟨.content, ns ++ s.toList.map .char, fs⟩ := by
  have hrun := run_flatMap (fun ns => ⟨.content, ns, fs⟩) (fun ns c => ns ++ [.char c])
    Text.escapeTextChar (fun c (_ : c ∈ s.toList) _ => run_escapeTextChar c) ns
  rw [foldl_char] at hrun
  rw [Reads, Text.escapeText, String.toList_ofList]
  exact hrun

theorem run_escapeAttributeChar (tag : StartTag) (key : String) (c : Char) (value : String) :
    run ⟨.value tag key value, ns, fs⟩ (Text.escapeAttributeChar c) =
      some ⟨.value tag key (value.push c), ns, fs⟩ := by
  rcases Text.escapeAttributeChar_cases c with ⟨h, hle, hquot, hamp, hne⟩ | ⟨name, h, hname, hc⟩
  · rw [h]
    refine run_cons ?_ []
    rw [step_of_le hle]
    show (if c = '"' then _ else if c = '&' then _ else if c = '<' ∨ c = '>' then _ else _) = _
    rw [if_neg hquot, if_neg hamp, if_neg (not_or.mpr hne)]
  · rw [h]
    exact run_reference ⟨.value tag key value, ns, fs⟩
      (fun name => ⟨.valueReference tag key value name, ns, fs⟩)
      (fun d => ⟨.value tag key (value.push d), ns, fs⟩) rfl (fun _ _ hd => if_pos hd)
      (fun _ => rfl) hname hc

theorem reads_escapeAttribute (tag : StartTag) (key s : String) :
    Reads ⟨.value tag key "", ns, fs⟩ (Text.escapeAttribute s) ⟨.value tag key s, ns, fs⟩ := by
  have hrun := run_flatMap (fun value => ⟨.value tag key value, ns, fs⟩) String.push
    Text.escapeAttributeChar
    (fun c (_ : c ∈ s.toList) value => run_escapeAttributeChar tag key c value) ""
  rw [foldl_push, String.empty_append, String.ofList_toList] at hrun
  rw [Reads, Text.escapeAttribute, String.toList_ofList]
  exact hrun

/-! ### Tags -/

/-- The rest of a start tag: attributes and `>`.  It comes after the name or after a value, and all
that counts is what the reader does with a blank and with `>` there. -/
theorem reads_attributeSource {attributes : KeyedList String}
    (hkeys : ∀ key ∈ attributes.keys, IsName key) {phase : Phase} {tag : StartTag}
    (hblank : step ⟨phase, ns, fs⟩ ' ' = some ⟨.key tag "", ns, fs⟩)
    (hend : step ⟨phase, ns, fs⟩ '>' = some ⟨.content, [], ⟨tag, ns⟩ :: fs⟩) :
    Reads ⟨phase, ns, fs⟩ (attributeSource attributes ++ ">")
      ⟨.content, [], ⟨⟨tag.name, tag.attributes ++ attributes⟩, ns⟩ :: fs⟩ := by
  induction attributes generalizing phase tag with
  | nil =>
    rw [List.append_nil]
    exact run_cons hend []
  | cons entry attributes ih =>
    obtain ⟨key, value⟩ := entry
    simp only [KeyedList.keys, List.map_cons, List.forall_mem_cons] at hkeys
    have hkey : Reads ⟨.key tag "", ns, fs⟩ key ⟨.key tag ("" ++ key), ns, fs⟩ :=
      reads_name (.key tag) (fun _ _ hc => if_pos hc) hkeys.1 ""
    rw [String.empty_append] at hkey
    have hrest := @ih hkeys.2 (.afterValue ⟨tag.name, tag.attributes ++ [(key, value)]⟩) _ rfl rfl
    have hstart : Reads ⟨phase, ns, fs⟩ " " ⟨.key tag "", ns, fs⟩ := run_cons hblank []
    have hequals : Reads ⟨.key tag key, ns, fs⟩ "=\"" ⟨.value tag key "", ns, fs⟩ := rfl
    have hvalue : Reads ⟨.value tag key "", ns, fs⟩ (Text.escapeAttribute value)
        ⟨.value tag key value, ns, fs⟩ := reads_escapeAttribute tag key value
    have hquote : Reads ⟨.value tag key value, ns, fs⟩ "\""
        ⟨.afterValue ⟨tag.name, tag.attributes ++ [(key, value)]⟩, ns, fs⟩ := rfl
    have hread := ((((hstart.append hkey).append hequals).append hvalue).append hquote).append hrest
    rw [attributeSource]
    simpa only [String.append_assoc, List.append_assoc, List.singleton_append] using hread

theorem reads_close {name : String} (hname : IsName name) (attributes : KeyedList String)
    (before : List Node) :
    Reads ⟨.content, ns, ⟨⟨name, attributes⟩, before⟩ :: fs⟩ ("</" ++ name ++ ">")
      ⟨.content, before ++ [.element name attributes ns], fs⟩ := by
  have hread : Reads ⟨.endName "", ns, ⟨⟨name, attributes⟩, before⟩ :: fs⟩ name
      ⟨.endName ("" ++ name), ns, ⟨⟨name, attributes⟩, before⟩ :: fs⟩ :=
    reads_name .endName (fun _ _ hc => if_pos hc) hname ""
  rw [String.empty_append] at hread
  refine Reads.append (Reads.append rfl hread) ?_
  have hleave : step ⟨.endName name, ns, ⟨⟨name, attributes⟩, before⟩ :: fs⟩ '>' =
      some ⟨.content, before ++ [.element name attributes ns], fs⟩ := by
    show leave? ⟨.endName name, ns, ⟨⟨name, attributes⟩, before⟩ :: fs⟩ name = _
    exact if_pos rfl
  exact run_cons hleave []

end

end Reader

theorem Draft.text_append {a : Draft} (h : a.fault = none) (b : Draft) :
    (a ++ b).text = a.text ++ b.text := by
  show (Draft.append a b).text = _
  unfold Draft.append
  rw [h]

theorem Draft.fault_of_append {a b : Draft} (h : (a ++ b).fault = none) :
    a.fault = none ∧ b.fault = none := by
  have h : (Draft.append a b).fault = none := h
  unfold Draft.append at h
  split at h
  · rename_i hfault
    rw [hfault] at h
    cases h
  · rename_i hfault
    exact ⟨hfault, h⟩

theorem Draft.of_read {d : Draft} {s : String} (h : d.read = .ok s) :
    d.fault = none ∧ d.text = s := by
  unfold Draft.read at h
  split at h
  · cases h
  · rename_i hfault
    refine ⟨hfault, ?_⟩
    unfold Draft.written at h
    split at h
    · cases h
    · exact Except.ok.inj h

/-- Where the class is a name, a start tag is its name and all its attributes. -/
theorem Tag.start_eq {t : Tag} (h : t.Named) (attributes : KeyedList String) :
    t.start attributes =
      "<" ++ t.name ++ (attributeSource (t.styleAttribute ++ attributes) ++ ">") := by
  obtain ⟨name, style⟩ := t
  cases style with
  | none => simp [Tag.start, Tag.styleSource, Tag.styleAttribute, String.append_assoc]
  | some style =>
    have hstyle := Text.escapeAttribute_of_isName (h.2.2 style rfl)
    simp [Tag.start, Tag.styleSource, Tag.styleAttribute, attributeSource, hstyle,
      String.append_assoc]

namespace Markup

open Reader

mutual

/-- Markup that is written to its end is without a fault. -/
theorem sound_of_write : ∀ m : Markup, m.write.fault = none → m.Sound
  | .element _ _ children, h =>
    allSound_of_writeAll children (Draft.fault_of_append (Draft.fault_of_append h).1).2
  | .text _, _ => trivial
  | .fault _, h => absurd h (Option.some_ne_none _)

theorem allSound_of_writeAll : ∀ ms : List Markup, (writeAll ms).fault = none → AllSound ms
  | [], _ => trivial
  | m :: ms, h =>
    ⟨sound_of_write m (Draft.fault_of_append h).1,
      allSound_of_writeAll ms (Draft.fault_of_append h).2⟩

end

theorem text_write_element {tag : Tag} {attributes : KeyedList String} {children : List Markup}
    (h : AllSound children) :
    (write (.element tag attributes children)).text =
      tag.start attributes ++ (writeAll children).text ++ tag.close := by
  have hfinished := finished_writeAll children h
  rw [write, Draft.text_append (((Draft.finished_put _).append hfinished).1),
    Draft.text_append (Draft.finished_put _).1]
  rfl

/-- No text is written for markup without a fault if and only if there is no tree. -/
theorem text_write_eq_empty_iff {m : Markup} (h : m.Sound) :
    m.write.text = "" ↔ m.nodes = [] := by
  cases m with
  | element tag attributes children =>
    rw [text_write_element h, Tag.start]
    simp [nodes]
  | text content =>
    have hchar (c : Char) : Text.escapeTextChar c ≠ [] := by
      rcases Text.escapeTextChar_cases c with ⟨h, -⟩ | ⟨name, h, -⟩ <;> simp [h]
    have hempty : Text.escapeText content = "" ↔ content.toList = [] := by
      rw [Text.escapeText, ← String.toList_eq_nil_iff, String.toList_ofList]
      cases content.toList with
      | nil => simp
      | cons c cs => simp [hchar c]
    rw [nodes, List.map_eq_nil_iff]
    exact hempty
  | fault f => exact h.elim

theorem text_writeAll_eq_empty_iff {ms : List Markup} (h : AllSound ms) :
    (writeAll ms).text = "" ↔ forest ms = [] := by
  induction ms with
  | nil => exact ⟨fun _ => rfl, fun _ => rfl⟩
  | cons m ms ih =>
    rw [writeAll, Draft.text_append (finished_write m h.1).1, String.append_eq_empty_iff,
      text_write_eq_empty_iff h.1, ih h.2, forest_cons, List.append_eq_nil_iff]

theorem keys_styleAttribute (t : Tag) {attributes : KeyedList String}
    (h : ∀ key ∈ attributes.keys, IsName key) :
    ∀ key ∈ (t.styleAttribute ++ attributes : KeyedList String).keys, IsName key := by
  intro key hkey
  rw [KeyedList.keys, List.map_append, List.mem_append] at hkey
  rcases hkey with hkey | hkey
  · simp only [Tag.styleAttribute, List.map_map, List.mem_map] at hkey
    obtain ⟨style, -, rfl⟩ := hkey
    show IsName "class"
    decide
  · exact h key hkey

mutual

/-- Reading goes from one state between tags to another, with the trees of the markup added. -/
theorem reads_write : ∀ m : Markup, m.Sound → m.Named → ∀ ns fs,
    Reads ⟨.content, ns, fs⟩ m.write.text ⟨.content, ns ++ m.nodes, fs⟩
  | .element tag attributes children, hsound, ⟨htag, hkeys, hchildren⟩, ns, fs => by
    have hopen : Reads ⟨.content, ns, fs⟩ "<" ⟨.tag, ns, fs⟩ := rfl
    have hname : Reads ⟨.tag, ns, fs⟩ tag.name ⟨.startName tag.name, ns, fs⟩ :=
      reads_tag htag.2.1 htag.1
    have hattributes : Reads ⟨.startName tag.name, ns, fs⟩
        (attributeSource (tag.styleAttribute ++ attributes) ++ ">")
        ⟨.content, [], ⟨⟨tag.name, tag.styleAttribute ++ attributes⟩, ns⟩ :: fs⟩ :=
      @reads_attributeSource _ _ _ (keys_styleAttribute tag hkeys) _ ⟨tag.name, []⟩ rfl rfl
    have hinner := reads_writeAll children hsound hchildren []
      (⟨⟨tag.name, tag.styleAttribute ++ attributes⟩, ns⟩ :: fs)
    have hread := (((hopen.append hname).append hattributes).append hinner).append
      (reads_close htag.2.1 (tag.styleAttribute ++ attributes) ns)
    rw [text_write_element hsound, Tag.start_eq htag]
    exact hread
  | .text content, _, _, _, _ => reads_escapeText content
  | .fault _, h, _, _, _ => h.elim

theorem reads_writeAll : ∀ ms : List Markup, AllSound ms → AllNamed ms → ∀ ns fs,
    Reads ⟨.content, ns, fs⟩ (writeAll ms).text ⟨.content, ns ++ forest ms, fs⟩
  | [], _, _, ns, fs => by
    rw [forest, List.append_nil]
    rfl
  | m :: ms, hsound, hnamed, ns, fs => by
    rw [writeAll, Draft.text_append (finished_write m hsound.1).1, forest, ← List.append_assoc]
    exact (reads_write m hsound.1 hnamed.1 ns fs).append
      (reads_writeAll ms hsound.2 hnamed.2 (ns ++ m.nodes) fs)

end

/-- Markup that was written without a fault and has names for names is read as its trees. -/
theorem read?_of_read {m : Markup} (hnamed : m.Named) {s : String} (h : m.write.read = .ok s) :
    Node.read? s = some m.nodes := by
  obtain ⟨hfault, rfl⟩ := Draft.of_read h
  have hread : Reader.start.run m.write.text.toList = some ⟨.content, [] ++ m.nodes, []⟩ :=
    reads_write m (sound_of_write m hfault) hnamed [] []
  rw [Node.read?, hread]
  rfl

theorem read?_of_readAll {ms : List Markup} (hnamed : AllNamed ms) {s : String}
    (h : (writeAll ms).read = .ok s) : Node.read? s = some (forest ms) := by
  obtain ⟨hfault, rfl⟩ := Draft.of_read h
  have hread : Reader.start.run (writeAll ms).text.toList = some ⟨.content, [] ++ forest ms, []⟩ :=
    reads_writeAll ms (allSound_of_writeAll ms hfault) hnamed [] []
  rw [Node.read?, hread]
  rfl

end Markup

end MathMarkup
