import Qtng.MsgPack.Shape

namespace Qtng.MsgPack

open BigEndian Reader List

section Headers

variable {len count : Nat} {α β : Type}

theorem header_whole (form : Lengths) {text : Bytes} (small : len < 2 ^ 31) (enough : len ≤ text.length) :
    (do let len ← form.read; checkLength len; return len : Read Nat) (form.write len ++ text) = .ok (len, text) := by
  rw [bind_ok ((meets_lengths form (by omega)).ok text), bind_ok (checkLength_eq_ok.mpr ⟨rfl, small, enough⟩)]
  rfl

theorem header_eq_ok {form : Lengths} {text rest : Bytes}
    (read : (do let len ← form.read; checkLength len; return len : Read Nat) text = .ok (len, rest)) :
    len < 2 ^ 31 ∧ (form.write len).length + rest.length ≤ text.length := by
  obtain ⟨count, mid, header, read⟩ := bind_eq_ok.mp read
  obtain ⟨⟨⟩, same, checked, done⟩ := bind_eq_ok.mp read
  cases done
  obtain ⟨rfl, small, -⟩ := checkLength_eq_ok.mp checked
  exact ⟨small, costs_lengths form _ _ _ header⟩

theorem length_le_flatMap {write : α → Bytes} {items : List α} (filled : ∀ i ∈ items, write i ≠ []) :
    items.length ≤ (items.flatMap write).length := by
  induction items with
  | nil => simp
  | cons item items ih =>
    have rest := ih (fun i member => filled i (mem_cons_of_mem _ member))
    have first := length_pos_iff.mpr (filled item mem_cons_self)
    simp only [flatMap_cons, length_append, length_cons]
    omega

/-- The header of a container is followed by a byte for each element, so that only the loop decides. -/
theorem header_passes {write : α → Bytes} {items : List α} (form : Lengths)
    (filled : ∀ i ∈ items, write i ≠ []) (small : items.length < 2 ^ 31) (loop : Nat → Read β) (rest : Bytes) :
    ((do let len ← form.read; checkLength len; return len : Read Nat) >>= loop)
      (form.write (items.length % 2 ^ 32) ++ items.flatMap write ++ rest) =
      loop items.length (items.flatMap write ++ rest) := by
  have enough : items.length ≤ (items.flatMap write ++ rest).length := (length_le_flatMap filled).trans (by simp)
  rw [Nat.mod_eq_of_lt (by omega), append_assoc, bind_ok (header_whole form small enough)]

theorem header_large {loop : Nat → Read β} (form : Lengths) (large : ¬ count < 2 ^ 31)
    (small : count < 2 ^ 32) (text : Bytes) :
    ((do let len ← form.read; checkLength len; return len : Read Nat) >>= loop)
      (form.write (count % 2 ^ 32) ++ text) = .error .readCorruptData := by
  refine bind_error ?_
  rw [Nat.mod_eq_of_lt small, bind_ok ((meets_lengths form small).ok text)]
  exact bind_error (if_neg (fun fits => large fits.1))

/-- What a loop over the elements of a container makes of a text: it adds elements that it reads,
not more than it counts. -/
inductive Gathered {α : Type} (read : Read α) (add : List α → α → List α) : Nat → List α → Bytes → List α → Bytes → Prop
  | done {count acc text} : Gathered read add count acc text acc text
  | more {count acc text item mid result rest} : read text = .ok (item, mid) →
      Gathered read add count (add acc item) mid result rest → Gathered read add (count + 1) acc text result rest

theorem Gathered.costs {read : Read α} {add : List α → α → List α} {weight : α → Nat} {valid : α → Prop}
    {acc result : List α} {text rest : Bytes} (adds : ∀ acc i, add acc i = acc ∨ add acc i = acc ++ [i])
    (shrinks : ∀ i, Costs read i 0) (costs : ∀ i, valid i → Costs read i (weight i))
    (given : Gathered read add count acc text result rest) (allValid : ∀ i ∈ result, valid i) :
    acc <+: result ∧ result.length ≤ acc.length + count ∧
      (result.map weight).sum + rest.length ≤ (acc.map weight).sum + text.length ∧
      ∀ i ∈ result, i ∈ acc ∨ ∃ text rest, read text = .ok (i, rest) := by
  induction given with
  | done => exact ⟨prefix_refl _, by omega, by omega, fun i member => .inl member⟩
  | @more count acc text item mid result rest first _ ih =>
    obtain ⟨start, short, sum, origin⟩ := ih allValid
    have shorter := shrinks item _ _ first
    rcases adds acc item with same | grown
    · rw [same] at start short sum origin
      exact ⟨start, by omega, by omega, origin⟩
    · rw [grown] at start short sum origin
      have inside : item ∈ result := start.subset (by simp)
      have price := costs item (allValid item inside) _ _ first
      simp only [length_append, length_singleton, map_append, sum_append, map_cons,
        map_nil, sum_cons, sum_nil] at short sum
      refine ⟨(prefix_append acc [item]).trans start, by omega, by omega, fun i member => ?_⟩
      rcases origin i member with old | read
      · rcases mem_append.mp old with old | new
        · exact .inl old
        · obtain rfl := mem_singleton.mp new
          exact .inr ⟨_, _, first⟩
      · exact .inr read

end Headers

section Items

variable {α : Type} {write : α → Bytes} {read : Read α} {add : List α → α → List α}

theorem flatMap_append_ne_nil {item : α} {items : List α} (filled : write item ≠ []) (member : item ∈ items)
    (rest : Bytes) :
    items.flatMap write ++ rest ≠ [] := by
  intro none
  have all := (append_eq_nil_iff.mp none).1
  exact filled (flatMap_eq_nil_iff.mp all item member)

theorem readItems_step (count : Nat) (acc : List α) {text rest : Bytes} {item : α}
    (first : read text = .ok (item, rest)) :
    readItems add read (count + 1) acc text =
      if rest = [] then .ok (add acc item, []) else readItems add read count (add acc item) rest := by
  rw [readItems, bind_ok first]
  cases rest with
  | nil => rfl
  | cons byte rest => rfl

theorem readItems_failed (count : Nat) (acc : List α) {text : Bytes} {e : Status} (first : read text = .error e) :
    readItems add read (count + 1) acc text = .error e := bind_error first

theorem readItems_whole {items : List α} (acc : List α) (rest : Bytes) (filled : ∀ i ∈ items, write i ≠ [])
    (good : ∀ i ∈ items, ∀ rest, read (write i ++ rest) = .ok (i, rest)) :
    readItems add read items.length acc (items.flatMap write ++ rest) = .ok (items.foldl add acc, rest) := by
  induction items generalizing acc with
  | nil => rfl
  | cons item items ih =>
    rw [flatMap_cons, append_assoc, length_cons, readItems_step _ _ (good item mem_cons_self _)]
    split_ifs with none
    · cases items with
      | nil => simp_all
      | cons next items =>
        exact absurd none (flatMap_append_ne_nil (filled next (by simp)) mem_cons_self rest)
    · exact ih _ (fun i member => filled i (mem_cons_of_mem _ member))
        (fun i member => good i (mem_cons_of_mem _ member))

theorem readItems_refused {fits : α → Prop} {items : List α} (acc : List α) (rest : Bytes)
    (filled : ∀ i ∈ items, write i ≠ [])
    (good : ∀ i ∈ items, fits i → ∀ rest, read (write i ++ rest) = .ok (i, rest))
    (bad : ∀ i ∈ items, ¬ fits i → ∀ rest, read (write i ++ rest) = .error .readCorruptData)
    (some : ∃ i ∈ items, ¬ fits i) :
    readItems add read items.length acc (items.flatMap write ++ rest) = .error .readCorruptData := by
  induction items generalizing acc with
  | nil => simp at some
  | cons item items ih =>
    rw [flatMap_cons, append_assoc, length_cons]
    by_cases here : fits item
    · obtain ⟨other, member, misfit⟩ := some
      have later : other ∈ items := by
        rcases mem_cons.mp member with rfl | later
        · exact absurd here misfit
        · exact later
      rw [readItems_step _ _ (good item mem_cons_self here _),
        if_neg (flatMap_append_ne_nil (filled other member) later rest)]
      exact ih _ (fun i member => filled i (mem_cons_of_mem _ member))
        (fun i member => good i (mem_cons_of_mem _ member))
        (fun i member => bad i (mem_cons_of_mem _ member)) ⟨other, later, misfit⟩
    · exact readItems_failed _ _ (bad item mem_cons_self here _)

theorem foldl_pushBack (items acc : List α) : items.foldl pushBack acc = acc ++ items := by
  induction items generalizing acc with
  | nil => simp
  | cons item items ih => simp [ih, pushBack]

theorem foldl_insert [DecidableEq α] {items acc : List α} (distinct : (acc ++ items).Nodup) :
    items.foldl insert acc = acc ++ items := by
  induction items generalizing acc with
  | nil => simp
  | cons item items ih =>
    have split : acc ++ item :: items = acc ++ [item] ++ items := by simp
    rw [split] at distinct ⊢
    have fresh : item ∉ acc := fun member =>
      disjoint_of_nodup_append (nodup_append.mp distinct).1 member mem_cons_self
    rw [foldl_cons, insert, if_neg fresh, ih distinct]

theorem gathered_readItems {count : Nat} {acc result : List α} {text rest : Bytes}
    (given : readItems add read count acc text = .ok (result, rest)) :
    Gathered read add count acc text result rest := by
  induction count generalizing acc text with
  | zero =>
    cases given
    exact .done
  | succ count ih =>
    cases first : read text with
    | error e =>
      rw [readItems_failed _ _ first] at given
      cases given
    | ok pair =>
      rw [readItems_step _ _ first] at given
      split_ifs at given with none
      · cases given
        exact .more (none ▸ first) .done
      · exact .more first (ih given)

end Items

section Entries

variable {α β : Type} [DecidableEq α] {writeKey : α → Bytes} {writeValue : β → Bytes} {readKey : Read α}
  {readValue : Read β}

def writeEntry (writeKey : α → Bytes) (writeValue : β → Bytes) (entry : α × β) : Bytes :=
  writeKey entry.1 ++ writeValue entry.2

theorem readEntries_step (count : Nat) (acc : List (α × β)) {text mid rest : Bytes} {key : α} {value : β}
    (first : readKey text = .ok (key, mid)) (second : readValue mid = .ok (value, rest)) :
    readEntries readKey readValue (count + 1) acc text =
      readEntries readKey readValue count (emplace acc key value) rest := by
  rw [readEntries, bind_ok first, bind_ok second]

theorem readEntries_whole {entries : List (α × β)} (acc : List (α × β)) (rest : Bytes)
    (good : ∀ e ∈ entries, (∀ rest, readKey (writeKey e.1 ++ rest) = .ok (e.1, rest)) ∧
      ∀ rest, readValue (writeValue e.2 ++ rest) = .ok (e.2, rest)) :
    readEntries readKey readValue entries.length acc (entries.flatMap (writeEntry writeKey writeValue) ++ rest) =
      .ok (entries.foldl (fun acc e => emplace acc e.1 e.2) acc, rest) := by
  induction entries generalizing acc with
  | nil => rfl
  | cons entry entries ih =>
    obtain ⟨goodKey, goodValue⟩ := good entry mem_cons_self
    rw [flatMap_cons, writeEntry, append_assoc, append_assoc, length_cons,
      readEntries_step _ _ (goodKey _) (goodValue _)]
    exact ih _ (fun e member => good e (mem_cons_of_mem _ member))

theorem readEntries_refused {fitsKey : α → Prop} {fitsValue : β → Prop} {entries : List (α × β)} (acc : List (α × β))
    (rest : Bytes)
    (good : ∀ e ∈ entries, (fitsKey e.1 → ∀ rest, readKey (writeKey e.1 ++ rest) = .ok (e.1, rest)) ∧
      (fitsValue e.2 → ∀ rest, readValue (writeValue e.2 ++ rest) = .ok (e.2, rest)))
    (bad : ∀ e ∈ entries, (¬ fitsKey e.1 → ∀ rest, readKey (writeKey e.1 ++ rest) = .error .readCorruptData) ∧
      (¬ fitsValue e.2 → ∀ rest, readValue (writeValue e.2 ++ rest) = .error .readCorruptData))
    (some : ∃ e ∈ entries, ¬ (fitsKey e.1 ∧ fitsValue e.2)) :
    readEntries readKey readValue entries.length acc (entries.flatMap (writeEntry writeKey writeValue) ++ rest) =
      .error .readCorruptData := by
  induction entries generalizing acc with
  | nil => simp at some
  | cons entry entries ih =>
    obtain ⟨goodKey, goodValue⟩ := good entry mem_cons_self
    obtain ⟨badKey, badValue⟩ := bad entry mem_cons_self
    rw [flatMap_cons, writeEntry, append_assoc, append_assoc, length_cons]
    by_cases key : fitsKey entry.1
    · by_cases value : fitsValue entry.2
      · obtain ⟨other, member, misfit⟩ := some
        have later : other ∈ entries := by
          rcases mem_cons.mp member with rfl | later
          · exact absurd ⟨key, value⟩ misfit
          · exact later
        rw [readEntries_step _ _ (goodKey key _) (goodValue value _)]
        exact ih _ (fun e member => good e (mem_cons_of_mem _ member))
          (fun e member => bad e (mem_cons_of_mem _ member)) ⟨other, later, misfit⟩
      · rw [readEntries, bind_ok (goodKey key _), bind_error (badValue value _)]
    · rw [readEntries, bind_error (badKey key _)]

theorem foldl_emplace {entries acc : List (α × β)} (distinct : ((acc ++ entries).map Prod.fst).Nodup) :
    entries.foldl (fun acc e => emplace acc e.1 e.2) acc = acc ++ entries := by
  induction entries generalizing acc with
  | nil => simp
  | cons entry entries ih =>
    have split : acc ++ entry :: entries = acc ++ [entry] ++ entries := by simp
    rw [split] at distinct ⊢
    have fresh : entry.1 ∉ acc.map Prod.fst := by
      intro member
      rw [map_append, map_append] at distinct
      exact disjoint_of_nodup_append (nodup_append.mp distinct).1 member (by simp)
    rw [foldl_cons, emplace, if_neg fresh, ih distinct]

def readEntry (readKey : Read α) (readValue : Read β) : Read (α × β) := do
  let key ← readKey
  let value ← readValue
  return (key, value)

omit [DecidableEq α] in
theorem readEntry_eq_ok {text rest : Bytes} {entry : α × β} :
    readEntry readKey readValue text = .ok (entry, rest) ↔
      ∃ mid, readKey text = .ok (entry.1, mid) ∧ readValue mid = .ok (entry.2, rest) := by
  simp only [readEntry, bind_eq_ok, pure_apply, Except.ok.injEq, Prod.mk.injEq]
  constructor
  · rintro ⟨key, mid, first, value, behind, second, rfl, rfl⟩
    exact ⟨mid, first, second⟩
  · rintro ⟨mid, first, second⟩
    exact ⟨_, mid, first, _, rest, second, rfl, rfl⟩

theorem gathered_readEntries {count : Nat} {acc result : List (α × β)} {text rest : Bytes}
    (given : readEntries readKey readValue count acc text = .ok (result, rest)) :
    Gathered (readEntry readKey readValue) (fun acc e => emplace acc e.1 e.2) count acc text result rest := by
  induction count generalizing acc text with
  | zero =>
    cases given
    exact .done
  | succ count ih =>
    obtain ⟨key, mid, first, more⟩ := bind_eq_ok.mp given
    obtain ⟨value, behind, second, more⟩ := bind_eq_ok.mp more
    have entry : readEntry readKey readValue text = .ok ((key, value), behind) :=
      readEntry_eq_ok.mpr ⟨mid, first, second⟩
    exact .more entry (ih more)

end Entries

namespace Shape

variable {item : Shape}

theorem write_filled : ∀ (s : Shape) (v : s.Val), s.Valid v → s.write v ≠ []
  | .leaf l, v, valid => l.filled v valid
  | .vector _, _, _ => fun none => write_ne_nil _ _ (append_eq_nil_iff.mp none).1
  | .set _, _, _ => fun none => write_ne_nil _ _ (append_eq_nil_iff.mp none).1
  | .map _ _, _, _ => fun none => write_ne_nil _ _ (append_eq_nil_iff.mp none).1

theorem items_whole {items : List item.Val} {add : List item.Val → item.Val → List item.Val}
    (valid : Every item.Valid items) (small : items.length < 2 ^ 31)
    (good : ∀ i ∈ items, ∀ rest, item.read (item.write i ++ rest) = .ok (i, rest)) (same : items.foldl add [] = items)
    (rest : Bytes) :
    (readArrayHeader >>= fun len => readItems add item.read len [])
      (writeArrayHeader (items.length % 2 ^ 32) ++ items.flatMap item.write ++ rest) = .ok (items, rest) := by
  have filled : ∀ i ∈ items, item.write i ≠ [] := fun i member => item.write_filled i (valid i member)
  rw [readArrayHeader, writeArrayHeader, header_passes .array filled small, readItems_whole [] rest filled good, same]

theorem entries_filled {key value : Shape} {entries : List (key.Val × value.Val)}
    (valid : ∀ e ∈ entries, key.Valid e.1 ∧ value.Valid e.2) :
    ∀ e ∈ entries, writeEntry key.write value.write e ≠ [] := fun e member none =>
  key.write_filled e.1 (valid e member).1 (append_eq_nil_iff.mp none).1

theorem read_write : ∀ (s : Shape) (v : s.Val) (rest : Bytes), s.Valid v → s.Fits v → s.Counts (2 ^ 31) v →
    s.read (s.write v ++ rest) = .ok (v, rest)
  | .leaf l, v, rest, valid, fits, _ => (l.meets v valid fits).ok rest
  | .vector item, items, rest, valid, fits, counts =>
    items_whole valid counts.1
      (fun i member rest => item.read_write i rest (valid i member) (fits i member) (counts.2 i member))
      (foldl_pushBack items []) rest
  | .set item, _, rest, valid, fits, counts =>
    items_whole valid.2 counts.1
      (fun i member rest => item.read_write i rest (valid.2 i member) (fits i member) (counts.2 i member))
      (foldl_insert valid.1) rest
  | .map key value, (entries : List (key.Val × value.Val)), rest, valid, fits, counts => by
    have good : ∀ e ∈ entries, (∀ rest, key.read (key.write e.1 ++ rest) = .ok (e.1, rest)) ∧
        ∀ rest, value.read (value.write e.2 ++ rest) = .ok (e.2, rest) := fun e member =>
      ⟨fun rest => key.read_write e.1 rest (valid.2 e member).1 (fits e member).1 (counts.2 e member).1,
        fun rest => value.read_write e.2 rest (valid.2 e member).2 (fits e member).2 (counts.2 e member).2⟩
    refine (header_passes .map (entries_filled valid.2) counts.1 _ rest).trans
      ((readEntries_whole [] rest good).trans ?_)
    rw [foldl_emplace (by simpa using valid.1), nil_append]
    rfl

theorem items_refused {items : List item.Val} {add : List item.Val → item.Val → List item.Val}
    (valid : Every item.Valid items) (few : items.length < 2 ^ 32)
    (bad : ∀ i ∈ items, ¬ (item.Fits i ∧ item.Counts (2 ^ 31) i) → ∀ rest,
      item.read (item.write i ++ rest) = .error .readCorruptData)
    (other : ¬ (Every item.Fits items ∧ items.length < 2 ^ 31 ∧ Every (item.Counts (2 ^ 31)) items)) (rest : Bytes) :
    (readArrayHeader >>= fun len => readItems add item.read len [])
      (writeArrayHeader (items.length % 2 ^ 32) ++ items.flatMap item.write ++ rest) = .error .readCorruptData := by
  by_cases small : items.length < 2 ^ 31
  · have filled : ∀ i ∈ items, item.write i ≠ [] := fun i member => item.write_filled i (valid i member)
    have some : ∃ i ∈ items, ¬ (item.Fits i ∧ item.Counts (2 ^ 31) i) := by
      by_contra none
      push Not at none
      exact other ⟨fun i member => (none i member).1, small, fun i member => (none i member).2⟩
    rw [readArrayHeader, writeArrayHeader, header_passes .array filled small]
    exact readItems_refused [] rest filled
      (fun i member both rest => item.read_write i rest (valid i member) both.1 both.2) bad some
  · rw [append_assoc]
    exact header_large .array small few _

theorem read_refused : ∀ (s : Shape) (v : s.Val) (rest : Bytes), s.Valid v → s.Counts (2 ^ 32) v →
    ¬ (s.Fits v ∧ s.Counts (2 ^ 31) v) → s.read (s.write v ++ rest) = .error .readCorruptData
  | .leaf l, v, rest, valid, _, other => (l.refused v valid (fun fits => other ⟨fits, trivial⟩)).whole rest
  | .vector item, _, rest, valid, counts, other =>
    items_refused valid counts.1 (fun i member other rest =>
      item.read_refused i rest (valid i member) (counts.2 i member) other) other rest
  | .set item, _, rest, valid, counts, other =>
    items_refused valid.2 counts.1 (fun i member other rest =>
      item.read_refused i rest (valid.2 i member) (counts.2 i member) other) other rest
  | .map key value, (entries : List (key.Val × value.Val)), rest, valid, counts, other => by
    by_cases small : entries.length < 2 ^ 31
    · refine (header_passes .map (entries_filled valid.2) small _ rest).trans ?_
      refine @readEntries_refused _ _ _ _ _ _ _ (fun k => key.Fits k ∧ key.Counts (2 ^ 31) k)
        (fun v => value.Fits v ∧ value.Counts (2 ^ 31) v) _ [] rest
        (fun e member => ⟨?_, ?_⟩) (fun e member => ⟨?_, ?_⟩) ?_
      · exact fun both rest => key.read_write e.1 rest (valid.2 e member).1 both.1 both.2
      · exact fun both rest => value.read_write e.2 rest (valid.2 e member).2 both.1 both.2
      · exact fun other rest => key.read_refused e.1 rest (valid.2 e member).1 (counts.2 e member).1 other
      · exact fun other rest => value.read_refused e.2 rest (valid.2 e member).2 (counts.2 e member).2 other
      · by_contra none
        push Not at none
        exact other ⟨fun e member => ⟨(none e member).1.1, (none e member).2.1⟩, small,
          fun e member => ⟨(none e member).1.2, (none e member).2.2⟩⟩
    · change (readMapHeader >>= _) (writeMapHeader (entries.length % 2 ^ 32) ++ _ ++ rest) = _
      rw [append_assoc]
      exact header_large .map small counts.1 _

theorem counts_mono : ∀ (s : Shape) (v : s.Val), s.Counts (2 ^ 31) v → s.Counts (2 ^ 32) v
  | .leaf _, _, _ => trivial
  | .vector item, _, given => ⟨given.1.trans (by decide), fun i member => item.counts_mono i (given.2 i member)⟩
  | .set item, _, given => ⟨given.1.trans (by decide), fun i member => item.counts_mono i (given.2 i member)⟩
  | .map key value, _, given => ⟨given.1.trans (by decide), fun e member =>
      ⟨key.counts_mono e.1 (given.2 e member).1, value.counts_mono e.2 (given.2 e member).2⟩⟩

section Costs

variable {α : Type} {form : Lengths} {write : α → Bytes} {read : Read α} {add : List α → α → List α}
  {valid counts : α → Prop} {loop : Nat → Read (List α)} {items : List α} {text rest : Bytes}

theorem container_shrinks (adds : ∀ acc i, add acc i = acc ∨ add acc i = acc ++ [i]) (shrinks : ∀ i, Costs read i 0)
    (gathers : ∀ {count text rest items}, loop count text = .ok (items, rest) →
      Gathered read add count [] text items rest)
    (given : ((do let len ← form.read; checkLength len; return len : Read Nat) >>= loop) text = .ok (items, rest)) :
    0 + rest.length ≤ text.length := by
  obtain ⟨len, mid, header, gathered⟩ := bind_eq_ok.mp given
  have shorter := (header_eq_ok header).2
  have sum := ((gathers gathered).costs adds shrinks (fun i _ => shrinks i) (fun _ _ => trivial)).2.2.1
  simp only [map_nil, sum_nil] at sum
  omega

theorem container_costs (adds : ∀ acc i, add acc i = acc ∨ add acc i = acc ++ [i]) (shrinks : ∀ i, Costs read i 0)
    (gathers : ∀ {count text rest items}, loop count text = .ok (items, rest) →
      Gathered read add count [] text items rest)
    (costs : ∀ i, valid i → ∀ text rest, read text = .ok (i, rest) →
      (write i).length + rest.length ≤ text.length ∧ counts i)
    (given : ((do let len ← form.read; checkLength len; return len : Read Nat) >>= loop) text = .ok (items, rest))
    (allValid : Every valid items) :
    (form.write (items.length % 2 ^ 32) ++ items.flatMap write).length + rest.length ≤ text.length ∧
      items.length < 2 ^ 31 ∧ Every counts items := by
  obtain ⟨len, mid, header, gathered⟩ := bind_eq_ok.mp given
  obtain ⟨small, before⟩ := header_eq_ok header
  obtain ⟨-, short, sum, origin⟩ :=
    (gathers gathered).costs adds shrinks (fun i ok text rest read => (costs i ok text rest read).1) allValid
  simp only [map_nil, sum_nil, length_nil, Nat.zero_add] at short sum
  have shorter := length_write_mono form short
  rw [Nat.mod_eq_of_lt (by omega), length_append, length_flatMap]
  refine ⟨by omega, by omega, fun i member => ?_⟩
  rcases origin i member with none | ⟨text, rest, read⟩
  · simp at none
  · exact (costs i (allValid i member) text rest read).2

theorem entry_shrinks {key value : Shape} (shrinksKey : ∀ k, Costs key.read k 0)
    (shrinksValue : ∀ v, Costs value.read v 0)
    (e : key.Val × value.Val) : Costs (readEntry key.read value.read) e 0 := by
  intro text rest read
  obtain ⟨mid, first, second⟩ := readEntry_eq_ok.mp read
  have one := shrinksKey e.1 _ _ first
  have two := shrinksValue e.2 _ _ second
  omega

theorem adds_pushBack {α : Type} (acc : List α) (i : α) : pushBack acc i = acc ∨ pushBack acc i = acc ++ [i] := .inr rfl

theorem adds_insert {α : Type} [DecidableEq α] (acc : List α) (i : α) :
    insert acc i = acc ∨ insert acc i = acc ++ [i] := by
  unfold insert
  split_ifs
  · exact .inl rfl
  · exact .inr rfl

theorem adds_emplace {α β : Type} [DecidableEq α] (acc : List (α × β)) (e : α × β) :
    emplace acc e.1 e.2 = acc ∨ emplace acc e.1 e.2 = acc ++ [e] := by
  unfold emplace
  split_ifs
  · exact .inl rfl
  · exact .inr rfl

end Costs

theorem read_shrinks : ∀ (s : Shape) (v : s.Val), Costs s.read v 0
  | .leaf l, v => l.shrinks v
  | .vector item, _ => fun _ _ => container_shrinks adds_pushBack item.read_shrinks gathered_readItems
  | .set item, _ => fun _ _ => container_shrinks adds_insert item.read_shrinks gathered_readItems
  | .map key value, _ => fun _ _ =>
    container_shrinks adds_emplace (entry_shrinks key.read_shrinks value.read_shrinks) gathered_readEntries

theorem read_costs : ∀ (s : Shape) (v : s.Val), s.Valid v → ∀ text rest, s.read text = .ok (v, rest) →
    (s.write v).length + rest.length ≤ text.length ∧ s.Counts (2 ^ 31) v
  | .leaf l, v, valid => fun text rest read => ⟨l.costs v valid text rest read, trivial⟩
  | .vector item, _, valid => fun _ _ read =>
    container_costs adds_pushBack item.read_shrinks gathered_readItems (fun i ok => item.read_costs i ok) read valid
  | .set item, _, valid => fun _ _ read =>
    container_costs adds_insert item.read_shrinks gathered_readItems (fun i ok => item.read_costs i ok) read valid.2
  | .map key value, _, valid => fun _ _ read => by
    refine @container_costs _ _ (writeEntry key.write value.write) _ _
      (fun e => key.Valid e.1 ∧ value.Valid e.2) _ _ _ _ _
      adds_emplace (entry_shrinks key.read_shrinks value.read_shrinks) gathered_readEntries
      (fun e ok text rest read => ?_)
      read valid.2
    obtain ⟨mid, first, second⟩ := readEntry_eq_ok.mp read
    obtain ⟨one, countsKey⟩ := key.read_costs e.1 ok.1 _ _ first
    obtain ⟨two, countsValue⟩ := value.read_costs e.2 ok.2 _ _ second
    rw [writeEntry, length_append]
    exact ⟨by omega, countsKey, countsValue⟩

theorem count_of_length {α : Type} {write : α → Bytes} {items : List α} {header : Bytes} {bound : Nat}
    (filled : ∀ i ∈ items, write i ≠ []) (short : (header ++ items.flatMap write).length < bound) :
    items.length < bound ∧ ∀ i ∈ items, (write i).length < bound := by
  rw [length_append] at short
  have least := length_le_flatMap filled
  refine ⟨by omega, fun i member => ?_⟩
  have part : write i <+ items.flatMap write := flatMap_def ▸ sublist_flatten_of_mem (mem_map_of_mem member)
  have less := part.length_le
  omega

theorem counts_of_length {bound : Nat} : ∀ (s : Shape) (v : s.Val), s.Valid v → (s.write v).length < bound →
    s.Counts bound v
  | .leaf _, _, _, _ => trivial
  | .vector item, items, valid, short => by
    obtain ⟨few, each⟩ := count_of_length (fun i member => item.write_filled i (valid i member)) short
    exact ⟨few, fun i member => item.counts_of_length i (valid i member) (each i member)⟩
  | .set item, items, valid, short => by
    obtain ⟨few, each⟩ := count_of_length (fun i member => item.write_filled i (valid.2 i member)) short
    exact ⟨few, fun i member => item.counts_of_length i (valid.2 i member) (each i member)⟩
  | .map key value, entries, valid, short => by
    obtain ⟨few, each⟩ := count_of_length (entries_filled valid.2) short
    refine ⟨few, fun e member => ?_⟩
    have both := each e member
    rw [writeEntry, length_append] at both
    exact ⟨key.counts_of_length e.1 (valid.2 e member).1 (by omega),
      value.counts_of_length e.2 (valid.2 e member).2 (by omega)⟩

end Shape

/-- Values are read back exactly if they take less than 2 GiB, and integers whatever types they are
written from and read into. -/
theorem roundTrip {s : Shape} {v : s.Val} (valid : s.Valid v) :
    (s.Fits v → (s.read (ofData (s.write v)) = .ok (v, []) ↔ (s.write v).length < 2 ^ 31)) ∧
      (¬ s.Fits v → (s.write v).length < 2 ^ 31 → s.read (ofData (s.write v)) = .error .readCorruptData) ∧
      ∀ (source target : IntType) (i : Int), source.Holds i →
        readInt target (ofData (writeInt source i)) =
          if target.Holds i then .ok (i, []) else .error .readCorruptData := by
  refine ⟨fun fits => ⟨fun read => ?_, fun short => ?_⟩, fun misfit short => ?_, fun source target i holds => ?_⟩
  · have costs := (s.read_costs v valid _ _ read).1
    have bound := Bencode.length_available_lt (s.write v)
    exact (Nat.le_add_right _ _).trans_lt (costs.trans_lt bound)
  · have read := s.read_write v [] valid fits (s.counts_of_length v valid short)
    rwa [append_nil, ← Bencode.available_of_short short] at read
  · have read :=
      s.read_refused v [] valid (s.counts_mono v (s.counts_of_length v valid short)) (fun both => misfit both.1)
    rwa [append_nil, ← Bencode.available_of_short short] at read
  · have short : (writeInt source i).length < 2 ^ 31 := by
      rw [writeInt_eq holds]
      have bound := length_packed_le i
      omega
    have read := (meets_readInt target holds).whole []
    rw [append_nil] at read
    rw [ofData, Bencode.available_of_short short, read]
    split_ifs <;> rfl

/-- Maps from bytes to extensions, under strings and vectors of integers that are read into
another type. -/
def sampleShape : Shape :=
  .map (.leaf strLeaf) (.map (.vector (.leaf (intLeaf .i16 .u8))) (.map (.leaf binLeaf) (.leaf extLeaf)))

def sampleEntries : List (Bytes × List (List Int × List (Bytes × MsgPackExtData))) :=
  [([97], [([1, 200], [([0, 255], ⟨5, [1, 2, 3]⟩)]), ([], [])]), ([], [])]

theorem roundTrip_sample :
    sampleShape.read (ofData (sampleShape.write sampleEntries)) = .ok (sampleEntries, []) := by
  have valid : sampleShape.Valid sampleEntries := by
    change (sampleEntries.map Prod.fst).Nodup ∧ ∀ e ∈ sampleEntries, e.1.length < 2 ^ 31 ∧ (e.2.map Prod.fst).Nodup ∧
      ∀ f ∈ e.2, (∀ i ∈ f.1, IntType.i16.Holds i) ∧ (f.2.map Prod.fst).Nodup ∧
        ∀ g ∈ f.2, g.1.length < 2 ^ 31 ∧ g.2.payload.length < 2 ^ 31
    decide
  have fits : sampleShape.Fits sampleEntries := by
    change ∀ e ∈ sampleEntries, True ∧ ∀ f ∈ e.2, (∀ i ∈ f.1, IntType.u8.Holds i) ∧ ∀ g ∈ f.2, True ∧ True
    decide
  exact ((roundTrip valid).1 fits).mpr (by decide)

/-- The bytes of a vector of 2 ^ 31 elements are too many to be read. -/
theorem roundTrip_refused : (Shape.vector (.leaf boolLeaf)).Valid (replicate (2 ^ 31) true) ∧
    (Shape.vector (.leaf boolLeaf)).Fits (replicate (2 ^ 31) true) ∧
    ∀ rest, (Shape.vector (.leaf boolLeaf)).read
      (ofData ((Shape.vector (.leaf boolLeaf)).write (replicate (2 ^ 31) true))) ≠
        .ok (replicate (2 ^ 31) true, rest) := by
  have valid : (Shape.vector (.leaf boolLeaf)).Valid (replicate (2 ^ 31) true) := fun _ _ => trivial
  refine ⟨valid, fun _ _ => trivial, fun rest read => ?_⟩
  have small := (Shape.read_costs _ _ valid _ _ read).2.1
  have long : (replicate (2 ^ 31) true).length = 2 ^ 31 := length_replicate
  exact absurd long (Nat.ne_of_lt small)

end Qtng.MsgPack
