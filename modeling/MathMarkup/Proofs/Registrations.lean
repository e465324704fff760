import Mathlib.Data.List.Nodup
import MathMarkup.Latex.Command
import MathMarkup.Proofs.LongestMatch
import MathMarkup.Proofs.Snapshots
import MathMarkup.Symbol.History

/-!
# Histories of registrations

A symbol table in the making is known by the entries that were registered so far, one after another:
its keys are theirs in the order in which they first came, and the last entry under a key counts
(`SymbolTable.Holds`).

An edit asks for some entries (`SymbolTable.Edit.Asks`).  All of them are registered, or, if the
policy refuses one, those before it (`SymbolTable.Registers`).  What an edit does depends on the
keys that are known and on nothing else, so the entries that a history of edits has registered are
known without any table (`SymbolTable.Registered`).

* `SymbolTable.addEntries_spec`: entries that are registered one by one.
* `SymbolTable.History.apply_spec`: one edit.
* `SymbolTable.History.exists_recounts`: a history of edits.
* `registrations_kept`: this, and what comes of copying a whole table.
-/

namespace MathMarkup

namespace SymbolTable

/-! ## The entries of a table -/

/-- A table with the key of each entry for its text. -/
def labelled (t : SymbolTable) : SymbolTable :=
  ⟨t.entries.map fun p => (p.1, { p.2 with text := p.1 })⟩

theorem labelled_eq_iff {t : SymbolTable} : t.labelled = t ↔ ∀ p ∈ t.entries, p.2.text = p.1 := by
  obtain ⟨entries⟩ := t
  simp only [labelled, mk.injEq]
  constructor
  · intro h p hp
    rw [← h] at hp
    obtain ⟨q, -, rfl⟩ := List.mem_map.mp hp
    rfl
  · intro h
    have hid : ∀ p ∈ entries, ((p.1, { p.2 with text := p.1 }) : String × Descriptor) = p := by
      rintro ⟨key, d⟩ hp
      have htext : d.text = key := h (key, d) hp
      subst htext
      rfl
    exact (List.map_congr_left hid).trans (List.map_id entries)

/-- A table is what has come of the registration of some entries, one after another. -/
structure Holds (t : SymbolTable) (log : KeyedList Descriptor) : Prop where
  /-- The keys are in the order of their first registrations. -/
  keys : t.keys = log.keys.eraseDups
  /-- There is one entry for each key. -/
  nodup : t.keys.Nodup
  /-- The entry under a key is that of its last registration. -/
  lookup (key : String) : t.lookup key = KeyedList.value? log.reverse key
  /-- Every entry has its key for its text. -/
  labelled : t.labelled = t

theorem holds_empty : empty.Holds [] where
  keys := rfl
  nodup := List.nodup_nil
  lookup _ := rfl
  labelled := rfl

variable {t : SymbolTable} {log : KeyedList Descriptor} {policy : Policy}

theorem Holds.mem_keys (h : t.Holds log) {key : String} : key ∈ t.keys ↔ key ∈ log.keys := by
  rw [h.keys, List.mem_eraseDups]

/-- The entry that is set is the last of its key. -/
theorem Holds.set (h : t.Holds log) (key : String) (value : Option String) (kind : Kind)
    (extra : Metadata) :
    (t.set key value kind extra).Holds (log ++ [(key, ⟨value, kind, key, extra⟩)]) := by
  have hkeys : (t.set key value kind extra).keys =
      if key ∈ t.keys then t.keys else t.keys ++ [key] :=
    KeyedList.keys_set t.entries key _
  refine ⟨?_, ?_, fun k => ?_, labelled_eq_iff.mpr fun p hp => ?_⟩
  · have hlog : KeyedList.keys (log ++ [(key, ⟨value, kind, key, extra⟩)]) = log.keys ++ [key] :=
      List.map_append
    rw [hkeys, hlog, List.eraseDups_append]
    split
    · rename_i hkey
      simp [h.mem_keys.mp hkey, h.keys, List.removeAll]
    · rename_i hkey
      have hnew : key ∉ log.keys := fun hmem => hkey (h.mem_keys.mpr hmem)
      simp [hnew, h.keys, List.removeAll, List.eraseDups_cons]
  · rw [hkeys]
    split
    · exact h.nodup
    · rename_i hkey
      rw [← List.concat_eq_append]
      exact h.nodup.concat hkey
  · rw [List.reverse_append, List.reverse_singleton, List.singleton_append, KeyedList.value?,
      ← h.lookup k]
    have hset := KeyedList.value?_set t.entries key k ⟨value, kind, key, extra⟩
    simp only [eq_comm (a := k)] at hset
    exact hset
  · rcases KeyedList.mem_set hp with rfl | hmem
    · rfl
    · exact labelled_eq_iff.mp h.labelled p hmem

/-! ## Registering entries -/

/-- What becomes of entries that are to be registered where some keys are known: those that are
registered, and the error that ends the registration, if there is one. -/
inductive Registers (policy : Policy) (known : List String) :
    KeyedList Descriptor → KeyedList Descriptor → Option TableError → Prop
  /-- All are registered.  If the policy refuses known keys, there is none among theirs. -/
  | all {asked : KeyedList Descriptor} (hnew : policy = .refuse → (known ++ asked.keys).Nodup) :
      Registers policy known asked asked none
  /-- A key is known already, or has come before among those that are to be registered.  The entries
  before it are registered, and the error names the key. -/
  | upTo (before : KeyedList Descriptor) {after : KeyedList Descriptor} {key : String}
      {d : Descriptor} (hpolicy : policy = .refuse) (hnew : (known ++ before.keys).Nodup)
      (hkey : key ∈ known ++ before.keys) :
      Registers policy known (before ++ (key, d) :: after) before (some (.duplicate key))

theorem Registers.cons {known : List String} {asked accepted : KeyedList Descriptor}
    {error : Option TableError} {key : String} {d : Descriptor}
    (h : Registers policy (known ++ [key]) asked accepted error) :
    Registers policy known ((key, d) :: asked) ((key, d) :: accepted) error := by
  have hshift (es : KeyedList Descriptor) :
      known ++ KeyedList.keys ((key, d) :: es) = known ++ [key] ++ es.keys := by
    simp [KeyedList.keys]
  cases h with
  | all hnew => exact .all fun hpolicy => (hshift asked).symm ▸ hnew hpolicy
  | upTo _ hpolicy hnew hkey =>
    exact .upTo ((key, d) :: accepted) hpolicy ((hshift accepted).symm ▸ hnew)
      ((hshift accepted).symm ▸ hkey)

/-- After a registration the known keys are still different, if the policy refuses known keys. -/
theorem Registers.nodup {known : List String} {asked accepted : KeyedList Descriptor}
    {error : Option TableError} (h : Registers policy known asked accepted error)
    (hpolicy : policy = .refuse) : (known ++ accepted.keys).Nodup := by
  cases h with
  | all hnew => exact hnew hpolicy
  | upTo _ _ hnew _ => exact hnew

theorem Registers.eq_refuse {known : List String} {asked accepted : KeyedList Descriptor}
    {error : Option TableError} (h : Registers policy known asked accepted error)
    (herror : error ≠ none) : policy = .refuse := by
  cases h with
  | all => exact absurd rfl herror
  | upTo _ hpolicy => exact hpolicy

/-- Registering one entry under several keys is registering an entry for each of them. -/
theorem register_eq_addEntries (value : Option String) (kind : Kind) (extra : Metadata)
    (keys : List String) :
    register policy value kind extra t keys =
      t.addEntries policy (keys.map fun key => (key, ⟨value, kind, key, extra⟩)) := by
  induction keys generalizing t with
  | nil => rfl
  | cons key keys ih =>
    rw [List.map_cons, addEntries, register, register]
    split
    · rfl
    · exact ih

theorem addEntries_cons (key : String) (d : Descriptor) (entries : KeyedList Descriptor) :
    t.addEntries policy ((key, d) :: entries) =
      if policy = .refuse ∧ (t.lookup key).isSome then (t, some (.duplicate key))
      else (t.set key d.value d.kind d.extra).addEntries policy entries := by
  rw [addEntries, register]
  by_cases hrefused : policy = .refuse ∧ (t.lookup key).isSome
  · rw [if_pos hrefused, if_pos hrefused]
  · rw [if_neg hrefused, if_neg hrefused]
    rfl

/-- Entries are registered one by one.  If the policy refuses known keys, those that are registered
come after the entries that were there, and nothing else changes. -/
theorem addEntries_spec (h : t.Holds log) (hlog : policy = .refuse → log.keys.Nodup)
    (entries : KeyedList Descriptor) :
    ∃ accepted,
      Registers policy log.keys (labelled ⟨entries⟩).entries accepted
        (t.addEntries policy entries).2 ∧
      (t.addEntries policy entries).1.Holds (log ++ accepted) ∧
      (policy = .refuse → (t.addEntries policy entries).1.entries = t.entries ++ accepted) := by
  induction entries generalizing t log with
  | nil =>
    refine ⟨[], .all fun hpolicy => ?_, ?_, fun _ => ?_⟩
    · simpa [KeyedList.keys, SymbolTable.labelled] using hlog hpolicy
    · simpa [addEntries] using h
    · simp [addEntries]
  | cons p entries ih =>
    obtain ⟨key, d⟩ := p
    rw [addEntries_cons]
    split
    · -- the key is refused, and nothing is registered
      rename_i hrefused
      obtain ⟨hpolicy, hfound⟩ := hrefused
      have hkey : key ∈ t.keys := by
        obtain ⟨d', hd'⟩ := Option.isSome_iff_exists.mp hfound
        exact KeyedList.mem_keys_of_value? hd'
      refine ⟨[], .upTo [] hpolicy ?_ ?_, ?_, fun _ => ?_⟩
      · simpa [KeyedList.keys] using hlog hpolicy
      · simpa [KeyedList.keys] using h.mem_keys.mp hkey
      · simpa using h
      · simp
    · rename_i hfree
      have hnew : policy = .refuse → key ∉ t.keys := by
        intro hpolicy hkey
        obtain ⟨d', hd'⟩ := KeyedList.exists_value? hkey
        exact hfree ⟨hpolicy, Option.isSome_iff_exists.mpr ⟨d', hd'⟩⟩
      have hkeys : KeyedList.keys (log ++ [(key, { d with text := key })]) = log.keys ++ [key] :=
        List.map_append
      have hlog' : policy = .refuse →
          (KeyedList.keys (log ++ [(key, { d with text := key })])).Nodup := by
        intro hpolicy
        rw [hkeys, ← List.concat_eq_append]
        exact (hlog hpolicy).concat fun hmem => hnew hpolicy (h.mem_keys.mpr hmem)
      obtain ⟨accepted, hregisters, hholds, hentries⟩ :=
        ih (h.set key d.value d.kind d.extra) hlog'
      rw [hkeys] at hregisters
      refine ⟨(key, { d with text := key }) :: accepted, hregisters.cons, ?_, fun hpolicy => ?_⟩
      · simpa using hholds
      · have hset : (t.set key d.value d.kind d.extra).entries =
            t.entries ++ [(key, { d with text := key })] :=
          KeyedList.set_of_notMem (hnew hpolicy) _
        rw [hentries hpolicy, hset, List.append_assoc]
        rfl

/-! ## Edits -/

/-- The entries that an edit asks for. -/
inductive Edit.Asks : Edit → KeyedList Descriptor → Prop
  | add (key : String) (keys : List String) (value : Option String) (kind : Kind)
      (extra : Metadata) :
      Asks (.add (.full key keys value kind) extra)
        ((key :: keys).map fun key => (key, ⟨value, kind, key, extra⟩))
  | update (other : SymbolTable) : Asks (.update other) other.labelled.entries
  | take : Asks .take []

/-- What becomes of an edit where some keys are known: the entries that it registers, and its
error. -/
inductive Edit.Outcome (policy : Policy) (known : List String) :
    Edit → KeyedList Descriptor → Option TableError → Prop
  /-- An edit with too few arguments registers nothing. -/
  | insufficient (given : Nat) (h : given < 3) (extra : Metadata) :
      Outcome policy known (.add (.few given h) extra) [] (some (.insufficient given))
  | registers {edit : Edit} {asked accepted : KeyedList Descriptor} {error : Option TableError}
      (hasked : edit.Asks asked) (h : Registers policy known asked accepted error) :
      Outcome policy known edit accepted error

/-- The entries that edits have registered, one edit after another. -/
inductive Registered (policy : Policy) : List Edit → KeyedList Descriptor → Prop
  | nil : Registered policy [] []
  | concat {edits : List Edit} {edit : Edit} {log accepted : KeyedList Descriptor}
      {error : Option TableError} (h : Registered policy edits log)
      (hedit : edit.Outcome policy log.keys accepted error) :
      Registered policy (edits ++ [edit]) (log ++ accepted)

/-- Whether an edit takes the table. -/
def Edit.isTake : Edit → Bool
  | .take => true
  | _ => false

theorem Edit.Outcome.nodup {known : List String} {edit : Edit} {accepted : KeyedList Descriptor}
    {error : Option TableError} (h : edit.Outcome policy known accepted error)
    (hpolicy : policy = .refuse) (hknown : known.Nodup) : (known ++ accepted.keys).Nodup := by
  cases h with
  | insufficient => simpa [KeyedList.keys] using hknown
  | registers _ h => exact h.nodup hpolicy

namespace History

/-- An edit that registers the given entries does what its outcome says. -/
theorem apply_spec_of_addEntries {h : History} (hholds : h.current.Holds log)
    (hlog : h.policy = .refuse → log.keys.Nodup) {edit : Edit} (entries : KeyedList Descriptor)
    (hasked : edit.Asks (labelled ⟨entries⟩).entries)
    (hcurrent : (h.apply edit).1.current = (h.current.addEntries h.policy entries).1)
    (herror : (h.apply edit).2 = (h.current.addEntries h.policy entries).2) :
    ∃ accepted, edit.Outcome h.policy log.keys accepted (h.apply edit).2 ∧
      (h.apply edit).1.current.Holds (log ++ accepted) ∧
      (h.policy = .refuse ∨ (h.apply edit).2 ≠ none →
        (h.apply edit).1.current.entries = h.current.entries ++ accepted) := by
  obtain ⟨accepted, hregisters, hnext, hentries⟩ := addEntries_spec hholds hlog entries
  rw [hcurrent, herror]
  exact ⟨accepted, .registers hasked hregisters, hnext,
    fun hend => hentries (hend.elim id hregisters.eq_refuse)⟩

/-- What an edit does to a table in the making.  If the edit fails, or if the policy refuses known
keys, the entries that it registers come after those that were there, and nothing else changes. -/
theorem apply_spec {h : History} (hholds : h.current.Holds log)
    (hlog : h.policy = .refuse → log.keys.Nodup) (edit : Edit) :
    ∃ accepted, edit.Outcome h.policy log.keys accepted (h.apply edit).2 ∧
      (h.apply edit).1.current.Holds (log ++ accepted) ∧
      (h.policy = .refuse ∨ (h.apply edit).2 ≠ none →
        (h.apply edit).1.current.entries = h.current.entries ++ accepted) := by
  cases edit with
  | add arguments extra =>
    cases arguments with
    | few given hgiven =>
      refine ⟨[], .insufficient given hgiven extra, ?_, fun _ => (List.append_nil _).symm⟩
      rw [List.append_nil]
      exact hholds
    | full key keys value kind =>
      have hadd : h.current.add h.policy (.full key keys value kind) extra =
          h.current.addEntries h.policy
            ((key :: keys).map fun key => (key, ⟨value, kind, key, extra⟩)) :=
        register_eq_addEntries value kind extra (key :: keys)
      refine apply_spec_of_addEntries hholds hlog ((key :: keys).map _) ?_
        (congrArg Prod.fst hadd) (congrArg Prod.snd hadd)
      have hlabelled :
          labelled ⟨(key :: keys).map fun key => (key, ⟨value, kind, key, extra⟩)⟩ =
            ⟨(key :: keys).map fun key => (key, ⟨value, kind, key, extra⟩)⟩ :=
        labelled_eq_iff.mpr (List.forall_mem_map.mpr fun _ _ => rfl)
      rw [hlabelled]
      exact .add key keys value kind extra
  | update other => exact apply_spec_of_addEntries hholds hlog other.entries (.update other) rfl rfl
  | take => exact apply_spec_of_addEntries hholds hlog [] .take rfl rfl

/-- An edit that fails keeps what it had registered. -/
example : ((History.mk .refuse ⟨[("a", ⟨none, .grammar .symbol, "a", []⟩)]⟩ []).apply
    (.add (.full "b" ["a", "c"] none (.grammar .symbol)) [])).1.current.keys = ["a", "b"] := by
  decide

/-! ## Histories -/

/-- The history of edits from the empty table on. -/
def ofEdits (policy : Policy) (edits : List Edit) : History :=
  applyAll { policy } edits

/-- No edit fails. -/
def Flawless (h : History) : List Edit → Prop
  | [] => True
  | edit :: edits => (h.apply edit).2 = none ∧ (h.apply edit).1.Flawless edits

theorem applyAll_append (h : History) (a b : List Edit) :
    h.applyAll (a ++ b) = (h.applyAll a).applyAll b :=
  List.foldl_append

theorem Flawless.append {h : History} {a b : List Edit} (ha : h.Flawless a)
    (hb : (h.applyAll a).Flawless b) : h.Flawless (a ++ b) := by
  induction a generalizing h with
  | nil => exact hb
  | cons edit edits ih => exact ⟨ha.1, ih ha.2 hb⟩

theorem ofEdits_concat (policy : Policy) (edits : List Edit) (edit : Edit) :
    ofEdits policy (edits ++ [edit]) = ((ofEdits policy edits).apply edit).1 :=
  applyAll_append _ edits [edit]

theorem policy_apply (h : History) (edit : Edit) : (h.apply edit).1.policy = h.policy := by
  cases edit <;> rfl

theorem policy_ofEdits (policy : Policy) (edits : List Edit) :
    (ofEdits policy edits).policy = policy := by
  induction edits using List.reverseRecOn with
  | nil => rfl
  | append_singleton edits edit ih => rw [ofEdits_concat, policy_apply, ih]

/-- The table in the making holds what was registered. -/
theorem exists_registered (policy : Policy) (edits : List Edit) :
    ∃ log, Registered policy edits log ∧ (ofEdits policy edits).current.Holds log ∧
      (policy = .refuse → log.keys.Nodup) := by
  induction edits using List.reverseRecOn with
  | nil => exact ⟨[], .nil, holds_empty, fun _ => List.nodup_nil⟩
  | append_singleton edits edit ih =>
    obtain ⟨log, hregistered, hholds, hlog⟩ := ih
    obtain ⟨accepted, houtcome, hnext, -⟩ := apply_spec hholds
      (fun hpolicy => hlog (policy_ofEdits policy edits ▸ hpolicy)) edit
    rw [policy_ofEdits] at houtcome
    refine ⟨log ++ accepted, hregistered.concat houtcome, ?_, fun hpolicy => ?_⟩
    · rw [ofEdits_concat]
      exact hnext
    · have hkeys : KeyedList.keys (log ++ accepted) = log.keys ++ accepted.keys := List.map_append
      rw [hkeys]
      exact houtcome.nodup hpolicy (hlog hpolicy)

/-! ## Tables that were taken -/

theorem snapshots : Snapshots (fun h edit => (apply h edit).1) taken current Edit.isTake := by
  intro h edit
  cases edit with
  | add => exact (List.append_nil h.taken).symm
  | update => exact (List.append_nil h.taken).symm
  | take => rfl

theorem exists_holds_of_taken (policy : Policy) {edits : List Edit} {t : SymbolTable}
    (ht : t ∈ (ofEdits policy edits).taken) : ∃ log, t.Holds log := by
  induction edits using List.reverseRecOn with
  | nil => exact absurd ht List.not_mem_nil
  | append_singleton edits edit ih =>
    rw [ofEdits_concat] at ht
    cases edit with
    | add => exact ih ht
    | update => exact ih ht
    | take =>
      rcases List.mem_append.mp ht with hmem | hmem
      · exact ih hmem
      · obtain ⟨log, -, hholds, -⟩ := exists_registered policy edits
        exact ⟨log, List.mem_singleton.mp hmem ▸ hholds⟩

end History

/-- A table without keys has no longest key; else some key is as long as the longest. -/
theorem longest_cases (t : SymbolTable) :
    t.keys = [] ∧ t.longest = 0 ∨ ∃ key ∈ t.keys, key.length = t.longest := by
  have hmax (keys : List String) : keys = [] ∧ (keys.map String.length).foldr max 0 = 0 ∨
      ∃ key ∈ keys, key.length = (keys.map String.length).foldr max 0 := by
    induction keys with
    | nil => exact .inl ⟨rfl, rfl⟩
    | cons key keys ih =>
      right
      rw [List.map_cons, List.foldr_cons]
      rcases Nat.le_total ((keys.map String.length).foldr max 0) key.length with hle | hle
      · exact ⟨key, List.mem_cons_self, (Nat.max_eq_left hle).symm⟩
      · rw [Nat.max_eq_right hle]
        rcases ih with ⟨rfl, hzero⟩ | ⟨key', hmem, hlength⟩
        · exact ⟨key, List.mem_cons_self, Nat.le_antisymm (hzero ▸ hle) (hzero ▸ Nat.zero_le _)⟩
        · exact ⟨key', List.mem_cons_of_mem key hmem, hlength⟩
  exact hmax t.keys

/-! ## Copies of a table -/

/-- Entries under new keys are registered without an error, after those that were there. -/
theorem addEntries_of_nodup {entries : KeyedList Descriptor}
    (hnew : (t.keys ++ entries.keys).Nodup) :
    t.addEntries policy entries = (⟨t.entries ++ (labelled ⟨entries⟩).entries⟩, none) := by
  induction entries generalizing t with
  | nil => simp [addEntries, labelled]
  | cons p entries ih =>
    obtain ⟨key, d⟩ := p
    have hkey : key ∉ t.keys := fun hmem =>
      (List.nodup_cons.mp (List.nodup_middle.mp hnew)).1 (List.mem_append_left _ hmem)
    have hlookup : t.lookup key = none := KeyedList.value?_eq_none_iff.mpr hkey
    have hset : t.set key d.value d.kind d.extra =
        ⟨t.entries ++ [(key, { d with text := key })]⟩ :=
      congrArg mk (KeyedList.set_of_notMem hkey _)
    rw [addEntries_cons, if_neg (by simp [hlookup]), hset, ih]
    · simp [labelled]
    · simpa [SymbolTable.keys, KeyedList.keys] using hnew

namespace History

/-- A table that is copied to the empty one is what it was, each entry with its key for its text. -/
theorem taken_update (policy : Policy) {other : SymbolTable} (hother : other.keys.Nodup) :
    Flawless { policy } [.update other, .take] ∧
      (ofEdits policy [.update other, .take]).taken = [other.labelled] := by
  have hupdate : empty.update policy other = (other.labelled, none) :=
    addEntries_of_nodup (t := empty) hother
  have htable : (empty.update policy other).1 = other.labelled := congrArg Prod.fst hupdate
  exact ⟨⟨congrArg Prod.snd hupdate, rfl, trivial⟩, congrArg (fun t => [t]) htable⟩

end History

end SymbolTable

/-! ## LaTeX tables -/

namespace Latex

/-- The edits that register each entry of a table of glyphs with its LaTeX value. -/
def edits (glyphs : SymbolTable) : List SymbolTable.Edit :=
  glyphs.entries.map fun (key, d) =>
    .add (.full key [] (valueOf key d.value) d.kind) d.extra

open SymbolTable History

theorem apply_add_single (h : History) {key : String} (hkey : key ∉ h.current.keys)
    (value : Option String) (kind : Kind) (extra : Metadata) :
    h.apply (.add (.full key [] value kind) extra) =
      ({ h with current := ⟨h.current.entries ++ [(key, ⟨value, kind, key, extra⟩)]⟩ }, none) := by
  have hlookup : h.current.lookup key = none := KeyedList.value?_eq_none_iff.mpr hkey
  have hregister : register h.policy value kind extra h.current [key] =
      (⟨h.current.entries ++ [(key, ⟨value, kind, key, extra⟩)]⟩, none) := by
    rw [register, if_neg (by simp [hlookup]), register]
    exact congrArg (fun entries => (SymbolTable.mk entries, none)) (KeyedList.set_of_notMem hkey _)
  have hadd : h.current.add h.policy (.full key [] value kind) extra =
      (⟨h.current.entries ++ [(key, ⟨value, kind, key, extra⟩)]⟩, none) :=
    hregister
  rw [apply, hadd]

/-- Entries under new keys come with their LaTeX values after those that were there. -/
theorem applyAll_edits (h : History) {entries : KeyedList Descriptor}
    (hnew : (h.current.keys ++ entries.keys).Nodup) :
    h.Flawless (edits ⟨entries⟩) ∧
      h.applyAll (edits ⟨entries⟩) =
        { h with
          current := ⟨h.current.entries ++ (tableOver ⟨entries⟩).labelled.entries⟩ } := by
  induction entries generalizing h with
  | nil => exact ⟨trivial, by simp [edits, tableOver, labelled, applyAll]⟩
  | cons p entries ih =>
    obtain ⟨key, d⟩ := p
    have hkey : key ∉ h.current.keys := fun hmem =>
      (List.nodup_cons.mp (List.nodup_middle.mp hnew)).1 (List.mem_append_left _ hmem)
    have happly := apply_add_single h hkey (valueOf key d.value) d.kind d.extra
    have hrest : ((h.apply (.add (.full key [] (valueOf key d.value) d.kind)
        d.extra)).1.current.keys ++ KeyedList.keys entries).Nodup := by
      rw [happly]
      simpa [SymbolTable.keys, KeyedList.keys] using hnew
    obtain ⟨hflawless, hall⟩ := ih _ hrest
    refine ⟨⟨congrArg Prod.snd happly, hflawless⟩, ?_⟩
    calc h.applyAll (edits ⟨(key, d) :: entries⟩)
      _ = (h.apply (.add (.full key [] (valueOf key d.value) d.kind)
            d.extra)).1.applyAll (edits ⟨entries⟩) := rfl
      _ = _ := hall
      _ = _ := by
        rw [happly]
        simp [tableOver, labelled]

/-- A LaTeX table is what comes of registering each entry with its LaTeX value in the empty one. -/
theorem taken_edits (policy : Policy) {glyphs : SymbolTable} (hglyphs : glyphs.keys.Nodup) :
    Flawless { policy } (edits glyphs ++ [.take]) ∧
      (ofEdits policy (edits glyphs ++ [.take])).taken = [(tableOver glyphs).labelled] := by
  obtain ⟨hflawless, hall⟩ := applyAll_edits { policy } hglyphs
  refine ⟨hflawless.append ⟨rfl, trivial⟩, ?_⟩
  rw [ofEdits, applyAll_append, hall]
  rfl

end Latex

namespace SymbolTable

open History

/-- What is known of the history of some edits, from the entries that they have registered. -/
structure Recounts (policy : Policy) (edits : List Edit) (log : KeyedList Descriptor) : Prop where
  registered : Registered policy edits log
  current : (ofEdits policy edits).current.Holds log
  /-- The next edit registers what its outcome says.  If it fails, or if the policy refuses known
  keys, the entries that were there are left as they were. -/
  next (edit : Edit) :
    ∃ accepted, edit.Outcome policy log.keys accepted ((ofEdits policy edits).apply edit).2 ∧
      ((ofEdits policy edits).apply edit).1.current.Holds (log ++ accepted) ∧
      (policy = .refuse ∨ ((ofEdits policy edits).apply edit).2 ≠ none →
        ((ofEdits policy edits).apply edit).1.current.entries =
          (ofEdits policy edits).current.entries ++ accepted)
  /-- A table that was taken is the one that stood then. -/
  taken (before after : List Edit) (h : edits = before ++ .take :: after) :
    (ofEdits policy edits).taken[before.countP Edit.isTake]? = some (ofEdits policy before).current
  /-- A table that was taken knows its longest key, and it can be copied as it is. -/
  tables : ∀ t ∈ (ofEdits policy edits).taken,
    (∀ key ∈ t.keys, key.length ≤ t.longest) ∧
      (t.keys = [] ∧ t.longest = 0 ∨ ∃ key ∈ t.keys, key.length = t.longest) ∧
      t.keys.Nodup ∧ t.labelled = t

theorem exists_recounts (policy : Policy) (edits : List Edit) :
    ∃ log, Recounts policy edits log := by
  obtain ⟨log, hregistered, hholds, hlog⟩ := exists_registered policy edits
  refine ⟨log, hregistered, hholds, fun edit => ?_, ?_, fun t ht => ?_⟩
  · have hpolicy := policy_ofEdits policy edits
    have hspec := apply_spec hholds (hpolicy.symm ▸ hlog) edit
    rwa [hpolicy] at hspec
  · rintro before after rfl
    exact snapshots.getElem?_foldl rfl rfl before after
  · obtain ⟨_, hlogged⟩ := exists_holds_of_taken policy ht
    exact ⟨fun _ => length_le_longest, t.longest_cases, hlogged.nodup, hlogged.labelled⟩

end SymbolTable

open SymbolTable History

/-- After any edits, with either policy, the table in the making holds what was registered: each
edit registers what it asks for, up to the first key that the policy refuses.  Tables that were
taken stay as they were.  A table that is copied to the empty one is the same table again, and a
table of glyphs that is copied with LaTeX values keeps its keys, their order, its kinds and its
metadata. -/
theorem registrations_kept (policy : Policy) :
    (∀ edits : List Edit, ∃ log, Recounts policy edits log) ∧
      (∀ other : SymbolTable, other.keys.Nodup →
        Flawless { policy } [.update other, .take] ∧
          (ofEdits policy [.update other, .take]).taken = [other.labelled]) ∧
      ∀ glyphs : SymbolTable, glyphs.keys.Nodup →
        Flawless { policy } (Latex.edits glyphs ++ [.take]) ∧
          (ofEdits policy (Latex.edits glyphs ++ [.take])).taken =
            [(Latex.tableOver glyphs).labelled] ∧
          ((Latex.tableOver glyphs).labelled.entries.map fun p => (p.1, p.2.kind, p.2.extra)) =
            glyphs.entries.map fun p => (p.1, p.2.kind, p.2.extra) := by
  refine ⟨exists_recounts policy, fun _ => taken_update policy, fun glyphs hglyphs => ?_⟩
  obtain ⟨hflawless, htaken⟩ := Latex.taken_edits policy hglyphs
  refine ⟨hflawless, htaken, ?_⟩
  simp [Latex.tableOver, labelled]

/-- Two keys at once, a key that is there already after a new one, too few arguments, and a table
that has a new key before a known one. -/
def SymbolTable.mixedEdits : List Edit :=
  [.add (.full "a" ["b"] (some "x") (.grammar .symbol)) [],
    .take,
    .add (.full "c" ["a", "d"] none (.grammar .opening)) [("underover", .bool true)],
    .add (.few 2 (by decide)) [],
    .update ⟨[("f", ⟨some "y", .grammar .unary, "f", []⟩),
      ("b", ⟨none, .grammar .fence, "b", []⟩)]⟩,
    .take]

/-- A symbol that has a LaTeX value, an operator name, and a symbol that keeps its glyph. -/
def SymbolTable.fewGlyphs : SymbolTable :=
  ⟨[("times", ⟨some "×", .display .operator, "times", []⟩),
    ("lcm", ⟨some "lcm", .display .operator, "lcm", []⟩),
    ("alef", ⟨some "ℵ", .display .identifier, "alef", [("underover", .bool true)]⟩)]⟩

theorem registrations_kept_mixed :
    (∃ log, Recounts .refuse mixedEdits log) ∧
      fewGlyphs.keys.Nodup ∧
      Flawless { policy := .refuse } [.update fewGlyphs, .take] ∧
      (ofEdits .refuse [.update fewGlyphs, .take]).taken = [fewGlyphs.labelled] ∧
      Flawless { policy := .refuse } (Latex.edits fewGlyphs ++ [.take]) ∧
      (ofEdits .refuse (Latex.edits fewGlyphs ++ [.take])).taken =
        [(Latex.tableOver fewGlyphs).labelled] := by
  have hglyphs : fewGlyphs.keys.Nodup := by decide
  obtain ⟨hhistory, hupdate, hlatex⟩ := registrations_kept .refuse
  exact ⟨hhistory mixedEdits, hglyphs, (hupdate _ hglyphs).1, (hupdate _ hglyphs).2,
    (hlatex _ hglyphs).1, (hlatex _ hglyphs).2.1⟩

end MathMarkup
