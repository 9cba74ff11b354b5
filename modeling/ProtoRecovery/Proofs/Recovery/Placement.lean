import ProtoRecovery.Proofs.Recovery.Growth
import ProtoRecovery.Proofs.Schema.Forest
/-!
# Where declarations are placed

While a class waits for the message around it, its declaration has no place. `Arranged` lists the ones that
wait: everything else has one place, which agrees with the owner of its class. When no class waits any more,
everything has a file; and if no service has taken the name of a message, the schema is a forest.
-/

namespace ProtoRecovery.Recovery

open Relation (ReflTransGen)
open Schema (DeclId FileId FieldType Kind Filled Forest)

variable {ρ : Type} {c : Catalog ρ}

/-- A view under which names tell classes apart, and chains of owners end. -/
structure Ordered (v : View c) (rank : ρ → Nat) : Prop where
  rank_lt : ∀ {t o}, v.owner t (some o) → rank o < rank t
  name_inj : ∀ {t t'}, v.stands t → v.stands t' → c.fullName t = c.fullName t' → t = t'
  not_both : ∀ {t}, v.Fits .message t → ¬v.Fits .enum t

/-- A view under which names, kinds and owners of classes are no matter of chance. -/
structure Orderly (v : View c) (rank : ρ → Nat) : Prop extends Ordered v rank where
  owner_unique : ∀ {t o o'}, v.owner t o → v.owner t o' → o = o'
  kind_unique : ∀ {k k' t}, v.Fits k t → v.Fits k' t → k = k'

/-- Declaration `i` is of class `types[i]`, those in `waiting` have no place, and all others have one. Where a service
stands for a message class, what belongs to that class is not listed anywhere. -/
structure Arranged (v : View c) (types : List ρ) (waiting : List DeclId) (L : Ledger) : Prop where
  linked : L.schema.Linked
  size : types.length = L.schema.size
  memo : ∀ n id, L.memo.lookup n = some id ↔ ∃ t, types[id]? = some t ∧ c.fullName t = n
  fits : ∀ i t, types[i]? = some t → ∃ k, kindOf? L.schema i = some k ∧ v.Fits k t
  once : ∃ hidden, (L.schema.listed ++ waiting ++ hidden).Perm (List.range L.schema.size) ∧
    ∀ d ∈ hidden, ∃ p, L.schema.parentOf? d = some p ∧ kindOf? L.schema p = some .service
  top : ∀ f d, d ∈ L.schema.topsOf f → L.schema.parentOf? d = none ∧ L.schema.fileOf? d = some f
  child_nested : ∀ d p, L.schema.parentOf? d = some p → kindOf? L.schema p ≠ some .service → d ∈ L.schema.nestedIn p
  child_file : ∀ d p, L.schema.parentOf? d = some p → L.schema.fileOf? d = L.schema.fileOf? p
  child_owner : ∀ d p, L.schema.parentOf? d = some p →
    ∃ t o, types[d]? = some t ∧ types[p]? = some o ∧ v.owner t (some o) ∧ v.Fits .message o
  service_file : ∀ d, kindOf? L.schema d = some .service → d ∉ waiting → ∃ f, L.schema.fileOf? d = some f
  root_owner : ∀ d t, types[d]? = some t → L.schema.parentOf? d = none → d ∉ waiting →
    kindOf? L.schema d ≠ some .service → v.owner t none
  loose : ∀ d ∈ waiting, L.schema.Loose d

/-! ## Changes that leave places alone -/

/-- Everything about places is the same. -/
structure SamePlaces (S S' : Schema) : Prop where
  size : S'.size = S.size
  files : S'.files.length = S.files.length
  file : ∀ x, S'.fileOf? x = S.fileOf? x
  parent : ∀ x, S'.parentOf? x = S.parentOf? x
  kind : ∀ x, kindOf? S' x = kindOf? S x
  nested : ∀ x, S'.nestedIn x = S.nestedIn x
  tops : ∀ f, S'.topsOf f = S.topsOf f

theorem OnlyImports.samePlaces {S S' : Schema} (h : OnlyImports S S') : SamePlaces S S' where
  size := h.size
  files := h.files
  file := h.fileOf?
  parent := h.parentOf?
  kind x := by rw [kindOf?, kindOf?, h.outlineOf?]
  nested := h.nestedIn
  tops := h.tops

theorem samePlaces_of_filled {id : DeclId} {leaves : List FieldType} {S S' : Schema}
    (h : Filled id leaves S S') : SamePlaces S S' where
  size := h.size
  files := h.files
  file := h.file
  parent := h.parent
  kind x := by
    by_cases hx : x = id
    · rw [hx]
      exact h.kind
    · rw [kindOf?, kindOf?, h.others x hx]
  nested := h.nested
  tops := h.tops

section Arranged
variable {v : View c} {rank : ρ → Nat} {types : List ρ} {waiting : List DeclId} {L : Ledger} {S : Schema}

theorem Arranged.of_samePlaces (h : Arranged v types waiting L) (hS : SamePlaces L.schema S)
    (hl : S.Linked) : Arranged v types waiting ⟨S, L.memo⟩ where
  linked := hl
  size := h.size.trans hS.size.symm
  memo := h.memo
  fits i t ht := by simpa only [hS.kind] using h.fits i t ht
  once := by
    simp only [Schema.listed_congr hS.size hS.files hS.tops hS.nested, hS.size, hS.parent, hS.kind]
    exact h.once
  top f d hd := by
    rw [hS.tops] at hd
    rw [hS.parent, hS.file]
    exact h.top f d hd
  child_nested d p hp hk := by
    rw [hS.parent] at hp
    rw [hS.kind] at hk
    rw [hS.nested]
    exact h.child_nested d p hp hk
  child_file d p hp := by
    rw [hS.parent] at hp
    rw [hS.file, hS.file]
    exact h.child_file d p hp
  child_owner d p hp := h.child_owner d p (hS.parent d ▸ hp)
  service_file d hk hd := by
    rw [hS.kind] at hk
    rw [hS.file]
    exact h.service_file d hk hd
  root_owner d t ht hp hd hk := h.root_owner d t ht (hS.parent d ▸ hp) hd (hS.kind d ▸ hk)
  loose d hd := by
    have := h.loose d hd
    exact ⟨lt_of_lt_of_eq this.lt hS.size.symm, (hS.file d).trans this.file, (hS.parent d).trans this.parent⟩

theorem Arranged.nodup (h : Arranged v types waiting L) : (L.schema.listed ++ waiting).Nodup := by
  obtain ⟨hidden, hperm, -⟩ := h.once
  exact (List.nodup_append.1 (hperm.nodup_iff.2 List.nodup_range)).1

theorem Arranged.rank_lt (h : Arranged v types waiting L) (hv : Ordered v rank) {d p : DeclId}
    (hp : L.schema.parentOf? d = some p) :
    ((types[p]?).map rank).getD 0 < ((types[d]?).map rank).getD 0 := by
  obtain ⟨t, o, ht, ho, how, -⟩ := h.child_owner d p hp
  simpa [ht, ho] using hv.rank_lt how

/-! ## Declaring -/

theorem getElem?_append_of_some {α : Type} {l more : List α} {i : Nat} {a : α} (h : l[i]? = some a) :
    (l ++ more)[i]? = some a := by
  rw [List.getElem?_append_left (List.getElem?_eq_some_iff.1 h).1, h]

theorem getElem?_concat_cases {α : Type} {l : List α} {i : Nat} {a x : α} (h : (l ++ [a])[i]? = some x) :
    l[i]? = some x ∧ i ≠ l.length ∨ i = l.length ∧ x = a := by
  rcases Nat.lt_trichotomy i l.length with hi | hi | hi
  · rw [List.getElem?_append_left hi] at h
    exact .inl ⟨h, hi.ne⟩
  · rw [hi, List.getElem?_concat_length] at h
    exact .inr ⟨hi, (Option.some.inj h).symm⟩
  · rw [List.getElem?_eq_none (by rw [List.length_append]; exact hi)] at h
    cases h

theorem listed_declare {S : Schema} (name : String) (b : Bool) (k : Kind) :
    (S.declare name b k.emptyBody).listed = S.listed := by
  have htops : (S.declare name b k.emptyBody).topsOf = S.topsOf := rfl
  have hnested : (S.declare name b k.emptyBody).nestedIn = S.nestedIn :=
    funext fun x => Schema.nestedIn_declare S x name b k
  have hnew : S.nestedIn S.size = [] := by simp [Schema.nestedIn, Schema.size]
  unfold Schema.listed
  rw [Schema.size_declare, List.range_succ, List.flatMap_append, List.flatMap_singleton, htops, hnested, hnew,
    List.append_nil]
  rfl

section Declare
variable {k : Kind} {t : ρ} {name : String} {isDeprecated : Bool} (h : Arranged v types waiting L)
include h

theorem getElem?_concat_size : (types ++ [t])[L.schema.size]? = some t := by
  rw [← h.size, List.getElem?_concat_length]

theorem lookup_declared (hnew : L.memo.lookup (c.fullName t) = none) (n : String) (id : DeclId) :
    (L.declared (c.fullName t) name isDeprecated k).memo.lookup n = some id ↔
      ∃ x, (types ++ [t])[id]? = some x ∧ c.fullName x = n := by
  show (L.memo ++ [(c.fullName t, L.schema.size)]).lookup n = some id ↔ _
  rw [List.lookup_append]
  constructor
  · intro hn
    cases hm : L.memo.lookup n with
    | some id' =>
      obtain ⟨x, hx, hxn⟩ := (h.memo n id').1 hm
      obtain rfl : id' = id := by simpa [hm] using hn
      exact ⟨x, getElem?_append_of_some hx, hxn⟩
    | none =>
      by_cases hnt : n = c.fullName t
      · subst hnt
        obtain rfl : L.schema.size = id := by simpa [hm] using hn
        exact ⟨t, getElem?_concat_size h, rfl⟩
      · simp [hm, List.lookup_cons, beq_false_of_ne hnt] at hn
  · rintro ⟨x, hx, rfl⟩
    rcases getElem?_concat_cases hx with ⟨hx, -⟩ | ⟨hid, rfl⟩
    · rw [(h.memo _ id).2 ⟨x, hx, rfl⟩]
      rfl
    · rw [hnew, hid, h.size]
      simp

/-- A new declaration waits for its place, and all others stay where they are. -/
theorem arranged_declared (hfits : v.Fits k t) (hnew : L.memo.lookup (c.fullName t) = none) :
    Arranged v (types ++ [t]) (L.schema.size :: waiting)
      (L.declared (c.fullName t) name isDeprecated k) where
  linked := Schema.linked_declare h.linked ..
  size := by
    rw [List.length_append, h.size, Ledger.declared, Schema.size_declare]
    rfl
  memo := lookup_declared h hnew
  fits i x hx := by
    rw [kindOf?_declared]
    rcases getElem?_concat_cases hx with ⟨hx, hi⟩ | ⟨hi, rfl⟩
    · rw [if_neg (h.size ▸ hi)]
      exact h.fits i x hx
    · exact ⟨k, if_pos (h.size ▸ hi), hfits⟩
  once := by
    obtain ⟨hidden, hperm, hhidden⟩ := h.once
    refine ⟨hidden, ?_, fun d hd => ?_⟩
    · rw [Ledger.declared, listed_declare, Schema.size_declare, List.range_succ]
      refine (List.perm_middle.append_right hidden).trans ((hperm.cons _).trans ?_)
      exact (List.perm_append_singleton _ _).symm
    · obtain ⟨p, hp, hk⟩ := hhidden d hd
      have hlt : p < L.schema.size := h.linked.parent_lt d p hp
      exact ⟨p, (Schema.parentOf?_declare ..).trans hp, (kindOf?_declared p).trans ((if_neg hlt.ne).trans hk)⟩
  top f d hd := by
    rw [Ledger.declared, Schema.parentOf?_declare, Schema.fileOf?_declare]
    exact h.top f d hd
  child_nested d p hp hk := by
    rw [Ledger.declared, Schema.parentOf?_declare] at hp
    rw [kindOf?_declared, if_neg (h.linked.parent_lt d p hp).ne] at hk
    rw [Ledger.declared, Schema.nestedIn_declare]
    exact h.child_nested d p hp hk
  child_file d p hp := by
    rw [Ledger.declared, Schema.parentOf?_declare] at hp
    rw [Ledger.declared, Schema.fileOf?_declare, Schema.fileOf?_declare]
    exact h.child_file d p hp
  child_owner d p hp := by
    rw [Ledger.declared, Schema.parentOf?_declare] at hp
    obtain ⟨x, o, hx, ho, how⟩ := h.child_owner d p hp
    exact ⟨x, o, getElem?_append_of_some hx, getElem?_append_of_some ho, how⟩
  service_file d hk hd := by
    rw [List.mem_cons, not_or] at hd
    rw [kindOf?_declared, if_neg hd.1] at hk
    rw [Ledger.declared, Schema.fileOf?_declare]
    exact h.service_file d hk hd.2
  root_owner d x hx hp hd hk := by
    rw [Ledger.declared, Schema.parentOf?_declare] at hp
    rcases getElem?_concat_cases hx with ⟨hx, hi⟩ | ⟨hi, -⟩
    · rw [kindOf?_declared, if_neg (h.size ▸ hi)] at hk
      exact h.root_owner d x hx hp (fun hm => hd (List.mem_cons_of_mem _ hm)) hk
    · exact absurd (List.mem_cons.2 (.inl (hi.trans h.size))) hd
  loose d hd := by
    rcases List.mem_cons.1 hd with rfl | hd
    · exact loose_declared
    · have hloose := h.loose d hd
      refine ⟨?_, ?_, ?_⟩
      · rw [Ledger.declared, Schema.size_declare]
        exact Nat.lt_succ_of_lt hloose.lt
      · rw [Ledger.declared, Schema.fileOf?_declare, hloose.file]
      · rw [Ledger.declared, Schema.parentOf?_declare, hloose.parent]

end Declare

/-! ## Placing -/

theorem not_mem_waiting {id : DeclId} (h : Arranged v types (id :: waiting) L) : id ∉ waiting :=
  (List.nodup_cons.1 (List.nodup_append.1 h.nodup).2.1).1

theorem listed_openFile {u : ρ} {S : Schema} {id : Nat} (hn : S.nestedIn id = []) (hid : id < S.size) :
    (openFile c u id S).listed.Perm (id :: S.listed) := by
  unfold Schema.listed
  rw [length_files_openFile hn hid, size_openFile hn hid, List.range_succ, List.flatMap_append]
  have hold : (List.range S.files.length).flatMap (openFile c u id S).topsOf =
      (List.range S.files.length).flatMap S.topsOf := by
    refine List.flatMap_congr fun f hf => ?_
    rw [topsOf_openFile hn hid, if_neg (List.mem_range.1 hf).ne]
  have hnested : (openFile c u id S).nestedIn = S.nestedIn := funext fun x => nestedIn_openFile hn hid
  rw [hold, hnested, List.flatMap_singleton, topsOf_openFile hn hid, if_pos rfl, List.append_assoc]
  exact List.perm_middle

/-- What waited gets a file of its own, at the top of it. -/
theorem arranged_openFile {k : Kind} {t u : ρ} {id : Nat} (h : Arranged v types (id :: waiting) L)
    (hid : types[id]? = some t) (hn : L.schema.nestedIn id = []) (hnochild : ∀ x, L.schema.parentOf? x ≠ some id)
    (hk : kindOf? L.schema id = some k) (hfree : k ≠ .service → v.owner t none) :
    Arranged v types waiting (L.changed (openFile c u id)) := by
  have hloose := h.loose id List.mem_cons_self
  have hparent : ∀ x, (L.changed (openFile c u id)).schema.parentOf? x = L.schema.parentOf? x :=
    fun x => parentOf?_openFile hn hloose.lt
  have hfile : ∀ x, (L.changed (openFile c u id)).schema.fileOf? x =
      if x = id then some L.schema.files.length else L.schema.fileOf? x :=
    fun x => fileOf?_openFile hn hloose.lt
  have hkind : ∀ x, kindOf? (L.changed (openFile c u id)).schema x = kindOf? L.schema x :=
    fun x => kindOf?_congr (content_openFile hn hloose.lt)
  have hsize : (L.changed (openFile c u id)).schema.size = L.schema.size := size_openFile hn hloose.lt
  exact {
    linked := linked_openFile hn hloose.lt h.linked hloose
    size := h.size.trans hsize.symm
    memo := h.memo
    fits := by
      intro i x hx
      rw [hkind]
      exact h.fits i x hx
    once := by
      obtain ⟨hidden, hperm, hhidden⟩ := h.once
      simp only [hparent, hkind]
      refine ⟨hidden, ?_, hhidden⟩
      rw [hsize]
      refine List.Perm.trans (List.Perm.append_right hidden ?_) hperm
      exact ((listed_openFile hn hloose.lt).append_right _).trans List.perm_middle.symm
    top := by
      intro f d hd
      rw [hparent, hfile]
      rw [Ledger.changed, topsOf_openFile hn hloose.lt] at hd
      split at hd
      · rename_i hf
        obtain rfl := List.mem_singleton.1 hd
        exact ⟨hloose.parent, by rw [if_pos rfl, hf]⟩
      · have htop := h.top f d hd
        have hne : d ≠ id := by
          rintro rfl
          simp [hloose.file] at htop
        exact ⟨htop.1, by rw [if_neg hne, htop.2]⟩
    child_nested := by
      intro d p hp hkp
      rw [hparent] at hp
      rw [hkind] at hkp
      rw [Ledger.changed, nestedIn_openFile hn hloose.lt]
      exact h.child_nested d p hp hkp
    child_file := by
      intro d p hp
      rw [hparent] at hp
      have hd : d ≠ id := by
        rintro rfl
        simp [hloose.parent] at hp
      have hpid : p ≠ id := fun e => hnochild d (e ▸ hp)
      rw [hfile, hfile, if_neg hd, if_neg hpid]
      exact h.child_file d p hp
    child_owner := fun d p hp => h.child_owner d p (hparent d ▸ hp)
    service_file := by
      intro d hkd hd
      rw [hkind] at hkd
      rw [hfile]
      split
      · exact ⟨_, rfl⟩
      · rename_i hne
        exact h.service_file d hkd (by simp [hne, hd])
    root_owner := by
      intro d x hx hp hd hkd
      rw [hkind] at hkd
      by_cases hdid : d = id
      · subst hdid
        obtain rfl : t = x := by simpa [hid] using hx
        exact hfree fun e => hkd (e ▸ hk)
      · exact h.root_owner d x hx (hparent d ▸ hp) (by simp [hdid, hd]) hkd
    loose := by
      intro d hd
      have hdl := h.loose d (List.mem_cons_of_mem _ hd)
      have hne : d ≠ id := fun e => not_mem_waiting h (e ▸ hd)
      exact ⟨lt_of_lt_of_eq hdl.lt hsize.symm, (hfile d).trans ((if_neg hne).trans hdl.file),
        (hparent d).trans hdl.parent⟩ }

/-- Nothing that waits is a service: these get their file at once. -/
def NoService (S : Schema) (waiting : List DeclId) : Prop := ∀ d ∈ waiting, kindOf? S d ≠ some .service

section Nest
variable {id p : Nat} {t o : ρ} (hv : Ordered v rank) (h : Arranged v types (id :: waiting) L)
  (hw : NoService L.schema (id :: waiting)) (hid : types[id]? = some t) (ho : types[p]? = some o)
  (how : v.owner t (some o)) (hfits : v.Fits .message o)
include h

theorem parentOf?_nest_waiting (x : Nat) :
    (L.schema.nest p id).parentOf? x = if x = id then some p else L.schema.parentOf? x :=
  Schema.parentOf?_nest (h.loose id List.mem_cons_self).lt

include hv ho hfits in
/-- What is found for a message class is a message, or a service that was named for it. -/
theorem kind_cases : kindOf? L.schema p = some .message ∨ kindOf? L.schema p = some .service := by
  obtain ⟨k, hk, hfits'⟩ := h.fits p o ho
  rw [hk]
  cases k with
  | message => exact .inl rfl
  | enum => exact absurd hfits' (hv.not_both hfits)
  | service => exact .inr rfl

include hv ho hfits in
theorem nested_nest {d q : Nat} (hq : (L.schema.nest p id).parentOf? d = some q)
    (hk : kindOf? L.schema q ≠ some .service) : d ∈ (L.schema.nest p id).nestedIn q := by
  rw [parentOf?_nest_waiting h] at hq
  rcases kind_cases hv h ho hfits with hp | hp
  · rw [Schema.nestedIn_nest hp]
    split at hq
    · rename_i hd
      cases hq
      simp [hd]
    · split
      · exact List.mem_append_left _ (h.child_nested d q hq hk)
      · exact h.child_nested d q hq hk
  · have hne : kindOf? L.schema p ≠ some .message := by simp [hp]
    rw [Schema.nestedIn_nest_of_ne hne]
    split at hq
    · cases hq
      exact absurd hp hk
    · exact h.child_nested d q hq hk

include hid ho how hfits in
theorem owner_nest {d q : Nat} (hq : (L.schema.nest p id).parentOf? d = some q) :
    ∃ t o, types[d]? = some t ∧ types[q]? = some o ∧ v.owner t (some o) ∧ v.Fits .message o := by
  rw [parentOf?_nest_waiting h] at hq
  split at hq
  · rename_i hd
    cases hq
    exact ⟨t, o, hd ▸ hid, ho, how, hfits⟩
  · exact h.child_owner d q hq

include hw in
/-- Services have a file, so none is inside what waits. -/
theorem not_service_of_inside {x : DeclId} (hx : (L.schema.nest p id).Inside x id) :
    kindOf? L.schema x ≠ some .service := by
  intro hk
  by_cases hmem : x ∈ id :: waiting
  · exact hw x hmem hk
  · obtain ⟨f, hf⟩ := h.service_file x hk hmem
    rw [Schema.fileOf?_of_inside_nest h.linked (h.loose id List.mem_cons_self) hx] at hf
    cases hf

include hv hw hid ho how hfits

/-- The message around a class hands its file to the class and to everything inside it. -/
theorem fileOf?_nest_of_inside {x : DeclId} (hx : (L.schema.nest p id).Inside x id) :
    (L.schema.nest p id).fileOf? x = L.schema.fileOf? p := by
  have hloose := h.loose id List.mem_cons_self
  have hnone := Schema.fileOf?_of_inside_nest h.linked hloose hx
  rcases Schema.nest_cases L.schema p id with ⟨hp, hn⟩ | ⟨f, hp, hn⟩
  · rw [hn, Schema.fileOf?_hang, hnone, hp]
  · -- The descent stops at a depth; owners have lower ranks, so it finds everything before that.
    have hparent : ∀ y, (L.schema.nest p id).parentOf? y = (L.schema.hang p id).parentOf? y := by
      intro y
      rw [hn, Schema.parentOf?_assignAll]
    have hnested : ∀ q, (L.schema.nest p id).nestedIn q = (L.schema.hang p id).nestedIn q := by
      intro q
      rw [hn, Schema.nestedIn_assignAll]
    have hinside : ∀ {y z}, (L.schema.nest p id).Inside y z ↔ (L.schema.hang p id).Inside y z := by
      intro y z
      unfold Schema.Inside
      simp only [hparent]
    have hin : (L.schema.hang p id).Inside x id := hinside.1 hx
    have hlt : id < (L.schema.hang p id).size := lt_of_lt_of_eq hloose.lt Schema.size_hang.symm
    have hmem : x ∈ (L.schema.hang p id).descendants id := by
      refine Schema.mem_descendants_of_inside (fun d => ((types[d]?).map rank).getD 0) ?_ ?_ hlt hin
      · intro y q hq
        obtain ⟨t', o', ht', ho', how', -⟩ := owner_nest h hid ho how hfits ((hparent y).trans hq)
        simpa [ht', ho'] using hv.rank_lt how'
      · intro y q hqin hq
        have hk := not_service_of_inside h hw (hinside.2 hqin)
        exact hnested q ▸ nested_nest hv h ho hfits ((hparent y).trans hq) hk
    have hxlt : x < (L.schema.hang p id).size := by
      rcases ReflTransGen.cases_head hin with rfl | ⟨y, hy, -⟩
      · exact hlt
      · exact Schema.lt_size_of_parentOf? hy
    rw [hn, Schema.fileOf?_assignAll_of_mem hmem hxlt, hp]

theorem fileOf?_nest_parent (hp : p < L.schema.size) : (L.schema.nest p id).fileOf? p = L.schema.fileOf? p := by
  by_cases hin : (L.schema.nest p id).Inside p id
  · exact fileOf?_nest_of_inside hv h hw hid ho how hfits hin
  · exact Schema.fileOf?_nest_of_not_inside h.linked (h.loose id List.mem_cons_self) hp hin

/-- Children share the file of their parent, also where it was handed on just now. -/
theorem file_nest (hp : p < L.schema.size) {d q : Nat} (hq : (L.schema.nest p id).parentOf? d = some q) :
    (L.schema.nest p id).fileOf? d = (L.schema.nest p id).fileOf? q := by
  have hinside := fun {x} hx => fileOf?_nest_of_inside hv h hw hid ho how hfits (x := x) hx
  have houtside := fun {x} hx =>
    Schema.fileOf?_nest_of_not_inside (x := x) h.linked (h.loose id List.mem_cons_self) hp hx
  have hold := hq
  rw [parentOf?_nest_waiting h] at hold
  split at hold
  · rename_i hd
    cases hold
    rw [fileOf?_nest_parent hv h hw hid ho how hfits hp, hd]
    exact hinside .refl
  · rename_i hd
    -- A child is inside the class that was nested just when its parent is, unless it is that class.
    by_cases hin : (L.schema.nest p id).Inside q id
    · rw [hinside hin, hinside (.head hq hin)]
    · have hdin : ¬(L.schema.nest p id).Inside d id := by
        intro hdin
        rcases ReflTransGen.cases_head hdin with rfl | ⟨y, hy, hyin⟩
        · exact hd rfl
        · rw [hq] at hy
          cases hy
          exact hin hyin
      rw [houtside hin, houtside hdin]
      exact h.child_file d q hold

omit hw hid how in
/-- What waited is listed by the message around it, or hidden by a service. -/
theorem once_nest (hp : p < L.schema.size) :
    ∃ hidden, ((L.schema.nest p id).listed ++ waiting ++ hidden).Perm (List.range (L.schema.nest p id).size) ∧
      ∀ d ∈ hidden, ∃ q, (L.schema.nest p id).parentOf? d = some q ∧
        kindOf? (L.schema.nest p id) q = some .service := by
  obtain ⟨hidden, hperm, hhidden⟩ := h.once
  have hkept : ∀ d ∈ hidden, ∃ q, (L.schema.nest p id).parentOf? d = some q ∧
      kindOf? (L.schema.nest p id) q = some .service := by
    intro d hd
    obtain ⟨q, hq, hk⟩ := hhidden d hd
    have hne : d ≠ id := by
      rintro rfl
      rw [(h.loose d List.mem_cons_self).parent] at hq
      cases hq
    exact ⟨q, (parentOf?_nest_waiting h d).trans ((if_neg hne).trans hq), (kindOf?_congr Schema.content_nest).trans hk⟩
  rw [Schema.size_nest]
  rcases kind_cases hv h ho hfits with hk | hk
  · refine ⟨hidden, ((Schema.listed_nest hk hp).append_right _ |>.append_right hidden).trans ?_, hkept⟩
    exact (List.perm_middle.symm.append_right hidden).trans hperm
  · have hne : kindOf? L.schema p ≠ some .message := by simp [hk]
    refine ⟨id :: hidden, ?_, fun d hd => ?_⟩
    · rw [Schema.listed_nest_of_ne hne]
      exact (List.perm_middle.trans (List.perm_middle.symm.append_right hidden)).trans hperm
    · rcases List.mem_cons.1 hd with rfl | hd
      · exact ⟨p, (parentOf?_nest_waiting h d).trans (if_pos rfl), (kindOf?_congr Schema.content_nest).trans hk⟩
      · exact hkept d hd

/-- What waited is nested in the message around it. -/
theorem arranged_nest : Arranged v types waiting (L.changed (·.nest p id)) := by
  have hloose := h.loose id List.mem_cons_self
  have hp : p < L.schema.size := h.size ▸ (List.getElem?_eq_some_iff.1 ho).1
  have hparent := parentOf?_nest_waiting (p := p) h
  have hkind : ∀ x, kindOf? (L.changed (·.nest p id)).schema x = kindOf? L.schema x :=
    fun x => kindOf?_congr Schema.content_nest
  exact {
    linked := Schema.linked_nest h.linked hloose hp
    size := h.size.trans Schema.size_nest.symm
    memo := h.memo
    fits := by
      intro i x hx
      rw [hkind]
      exact h.fits i x hx
    once := once_nest hv h ho hfits hp
    top := by
      intro f d hd
      have htop := h.top f d (Schema.topsOf_nest (s := L.schema) f ▸ hd)
      have hne : d ≠ id := by
        rintro rfl
        simp [hloose.file] at htop
      exact ⟨(hparent d).trans ((if_neg hne).trans htop.1),
        Schema.fileOf?_nest_of_some h.linked hloose hp htop.2⟩
    child_nested := by
      intro d q hq hk
      rw [hkind] at hk
      exact nested_nest hv h ho hfits hq hk
    child_file := fun d q hq => file_nest hv h hw hid ho how hfits hp hq
    child_owner := fun d q hq => owner_nest h hid ho how hfits hq
    service_file := by
      intro d hk hd
      rw [hkind] at hk
      have hne : d ≠ id := fun e => hw id List.mem_cons_self (e ▸ hk)
      obtain ⟨f, hf⟩ := h.service_file d hk (by simp [hne, hd])
      exact ⟨f, Schema.fileOf?_nest_of_some h.linked hloose hp hf⟩
    root_owner := by
      intro d x hx hnone hd hkd
      rw [hkind] at hkd
      have hne : d ≠ id := by
        rintro rfl
        have hsome : none = some p := hnone.symm.trans ((hparent d).trans (if_pos rfl))
        cases hsome
      exact h.root_owner d x hx (((hparent d).trans (if_neg hne)).symm.trans hnone) (by simp [hne, hd]) hkd
    loose := by
      intro d hd
      have hdl := h.loose d (List.mem_cons_of_mem _ hd)
      have hne : d ≠ id := fun e => not_mem_waiting h (e ▸ hd)
      have hdparent : (L.schema.nest p id).parentOf? d = none := (hparent d).trans ((if_neg hne).trans hdl.parent)
      have hdin : ¬(L.schema.nest p id).Inside d id := by
        intro hdin
        rcases ReflTransGen.cases_head hdin with rfl | ⟨y, hy, -⟩
        · exact hne rfl
        · simp [hdparent] at hy
      exact ⟨lt_of_lt_of_eq hdl.lt Schema.size_nest.symm,
        (Schema.fileOf?_nest_of_not_inside h.linked hloose hp hdin).trans hdl.file, hdparent⟩ }

end Nest

/-! ## Derivations -/

/-- What a derivation arranges. -/
def Arranges (v : View c) : Goal ρ → Ledger → Ledger → Prop
  | .recover k t id, L, L' => v.Fits k t ∧ ∀ types waiting, Sound L → NoService L.schema waiting →
    Arranged v types waiting L → ∃ more, Arranged v (types ++ more) waiting L' ∧ (types ++ more)[id]? = some t
  | .place k t id, L, L' => ∀ types waiting, Sound L → NoService L.schema waiting → Fresh L.schema k id →
    types[id]? = some t → Arranged v types (id :: waiting) L → ∃ more, Arranged v (types ++ more) waiting L'
  | .mention source _, L, L' => ∀ types waiting, Sound L → NoService L.schema waiting → source < L.schema.size →
    Arranged v types waiting L → ∃ more, Arranged v (types ++ more) waiting L'

/-- Kinds stay, so what waits is no service later either. -/
theorem Grown.noService {lo : Nat} {own : FileId → Schema.Import → Prop} {L L' : Ledger} (h : Grown lo own L L')
    (hw : NoService L.schema waiting) (hlt : ∀ d ∈ waiting, d < lo) : NoService L'.schema waiting := by
  intro d hd
  rw [kindOf?, h.old d (hlt d hd)]
  exact hw d hd

theorem arranges_of_done (hv : Ordered v rank) {goal : Goal ρ} {L L' : Ledger} (h : Done v goal L L') :
    Arranges v goal L L' := by
  induction h with
  | @known k t id L hfits hf =>
    refine ⟨hfits, fun types waiting _ _ ha => ?_⟩
    -- The class that was noted under this name is this one, since names tell classes apart.
    obtain ⟨t', ht', hname⟩ := (ha.memo _ id).1 hf
    obtain ⟨k', -, hfits'⟩ := ha.fits id t' ht'
    obtain rfl := hv.name_inj hfits'.stands hfits.stands hname
    refine ⟨[], ?_, ?_⟩
    · rwa [List.append_nil]
    · rwa [List.append_nil]
  | @made k t name isDeprecated leaves L L₁ L₂ S hfits hnew hplace hmention hfinish ihp ihm =>
    refine ⟨hfits, fun types waiting hL hw ha => ?_⟩
    have hfresh : Fresh (L.declared (c.fullName t) name isDeprecated k).schema k L.schema.size :=
      fresh_declared hL
    have hid : (types ++ [t])[L.schema.size]? = some t := by
      rw [← ha.size, List.getElem?_concat_length]
    have hp : Placed _ _ _ _ := explained_of_done hplace (sound_declared hL) hfresh
    have hlt : L.schema.size < L₁.schema.size := lt_of_lt_of_le hfresh.loose.lt hp.grown.size_le
    have hm : Mentioned _ _ _ _ := explained_of_done hmention hp.grown.sound hlt
    have hwait : ∀ d ∈ waiting, d < L.schema.size := fun d hd => (ha.loose d hd).lt
    have hw₀ : NoService (L.declared (c.fullName t) name isDeprecated k).schema waiting := by
      intro d hd
      rw [kindOf?_declared, if_neg (hwait d hd).ne]
      exact hw d hd
    -- The declaration waits from here until it is placed; what waited before waits throughout.
    obtain ⟨more₁, ha₁⟩ := ihp _ waiting (sound_declared hL) hw₀ hfresh hid (arranged_declared ha hfits hnew)
    obtain ⟨more₂, ha₂⟩ := ihm _ waiting hp.grown.sound (hp.grown.noService hw₀ hwait) hlt ha₁
    have hid₂ : (types ++ [t] ++ more₁ ++ more₂)[L.schema.size]? = some t :=
      getElem?_append_of_some (getElem?_append_of_some hid)
    have hkind : kindOf? L₂.schema L.schema.size = some k := by
      rw [kindOf?, hm.grown.old _ hlt]
      exact hp.kind
    have hfilled := filled_of_finish hfinish hkind
    have ha₃ := ha₂.of_samePlaces (samePlaces_of_filled hfilled) (hfilled.linked ha₂.linked)
    simp only [List.append_assoc] at ha₃ hid₂
    exact ⟨[t] ++ (more₁ ++ more₂), ha₃, hid₂⟩
  | @nested k t owner id p L L₁ hk how hd ih =>
    intro types waiting hL hw hf ht ha
    have hw₀ : NoService L.schema (id :: waiting) := by
      intro d hd
      rcases List.mem_cons.1 hd with rfl | hd
      · rw [hf.kind]
        exact fun e => hk (Option.some.inj e)
      · exact hw d hd
    have hr : Recovered _ _ _ := explained_of_done hd hL
    obtain ⟨more, ha₁, ho⟩ := ih.2 types (id :: waiting) hL hw₀ ha
    have hw₁ := hr.grown.noService hw₀ fun d hd => (ha.loose d hd).lt
    exact ⟨more, arranged_nest hv ha₁ hw₁ (getElem?_append_of_some ht) ho how ih.1⟩
  | filed hfree =>
    intro types waiting hL hw hf ht ha
    refine ⟨[], ?_⟩
    rw [List.append_nil]
    exact arranged_openFile ha ht hf.nested (fun x hx => lt_irrefl _ (hf.apart x _ (.inl hx))) hf.kind hfree
  | nothing => exact fun types waiting _ _ _ ha => ⟨[], by rwa [List.append_nil]⟩
  | scalar => exact fun types waiting _ _ _ ha => ⟨[], by rwa [List.append_nil]⟩
  | wellKnown =>
    intro types waiting _ _ _ ha
    refine ⟨[], ?_⟩
    rw [List.append_nil]
    exact ha.of_samePlaces onlyImports_linkPath.samePlaces (onlyImports_linkPath.linked ha.linked)
  | reference _ ih =>
    intro types waiting hL hw _ ha
    obtain ⟨more, ha₁, -⟩ := ih.2 types waiting hL hw ha
    exact ⟨more, ha₁.of_samePlaces onlyImports_linkFiles.samePlaces (onlyImports_linkFiles.linked ha₁.linked)⟩
  | append hfirst _ ih₁ ih₂ =>
    intro types waiting hL hw hs ha
    obtain ⟨more₁, ha₁⟩ := ih₁ types waiting hL hw hs ha
    have hm : Mentioned _ _ _ _ := explained_of_done hfirst hL hs
    have hw₁ := hm.grown.noService hw fun d hd => (ha.loose d hd).lt
    obtain ⟨more₂, ha₂⟩ := ih₂ _ waiting hm.grown.sound hw₁ (lt_of_lt_of_le hs hm.grown.size_le) ha₁
    exact ⟨more₁ ++ more₂, by rwa [← List.append_assoc]⟩

theorem arranged_nothing : Arranged v [] [] {} where
  linked := sound_nothing.linked
  size := rfl
  memo := by simp
  fits := by simp
  once := ⟨[], by simp [Schema.listed, Schema.size], by simp⟩
  top := by simp [Schema.topsOf]
  child_nested := by simp [Schema.parentOf?]
  child_file := by simp [Schema.parentOf?]
  child_owner := by simp [Schema.parentOf?]
  service_file := by simp [kindOf?, Schema.outlineOf?]
  root_owner := by simp
  loose := by simp

/-- Between requests nothing waits. -/
theorem arranged_of_built (hv : Ordered v rank) (h : Built v L) : ∃ types, Arranged v types [] L := by
  induction h with
  | nothing => exact ⟨[], arranged_nothing⟩
  | more hb hd ih =>
    obtain ⟨types, ha⟩ := ih
    obtain ⟨more, ha', -⟩ := (arranges_of_done hv hd).2 types [] (grown_of_built hb).sound (by simp [NoService]) ha
    exact ⟨types ++ more, ha'⟩

/-! ## Files and forests -/

section Forest
variable (h : Arranged v types [] L)
include h

theorem mem_topsOf_of_root {d : Nat} (hd : d < L.schema.size) (hp : L.schema.parentOf? d = none) :
    ∃ f, d ∈ L.schema.topsOf f := by
  obtain ⟨hidden, hperm, hhidden⟩ := h.once
  rw [List.append_nil] at hperm
  rcases List.mem_append.1 (hperm.mem_iff.2 (List.mem_range.2 hd)) with hm | hm
  · rcases List.mem_append.1 hm with hm | hm
    · obtain ⟨f, -, hf⟩ := List.mem_flatMap.1 hm
      exact ⟨f, hf⟩
    · obtain ⟨q, -, hq⟩ := List.mem_flatMap.1 hm
      simp [h.linked.parent_of_nested q d hq] at hp
  · obtain ⟨q, hq, -⟩ := hhidden d hm
    simp [hq] at hp

/-- Whatever is found below the top of a file is in that file. -/
theorem fileOf?_of_mem_descendants {f : FileId} {r x : DeclId} (hr : r ∈ L.schema.topsOf f)
    (hx : x ∈ L.schema.descendants r) : L.schema.fileOf? x = some f := by
  have hin : L.schema.Inside x r := Schema.inside_of_mem_descend h.linked hx
  rw [← (h.top f r hr).2]
  clear hx
  induction hin using ReflTransGen.head_induction_on with
  | refl => rfl
  | head hp _ ih => exact (h.child_file _ _ hp).trans ih

/-- Files come down from the top of each tree. -/
theorem exists_fileOf? (hv : Ordered v rank) (n : Nat) (d : Nat) (hd : d < L.schema.size)
    (hn : ((types[d]?).map rank).getD 0 = n) : ∃ f, L.schema.fileOf? d = some f := by
  induction n using Nat.strong_induction_on generalizing d with
  | _ n ih =>
    cases hp : L.schema.parentOf? d with
    | none =>
      obtain ⟨f, hf⟩ := mem_topsOf_of_root h hd hp
      exact ⟨f, (h.top f d hf).2⟩
    | some p =>
      rw [h.child_file d p hp]
      exact ih _ (hn ▸ h.rank_lt hv hp) p (h.linked.parent_lt d p hp) rfl

variable (hv : Orderly v rank)
include hv

theorem kind_of_parent {d p : DeclId} (hp : L.schema.parentOf? d = some p) : kindOf? L.schema p ≠ some .service := by
  obtain ⟨t, o, -, ho, -, hfits⟩ := h.child_owner d p hp
  obtain ⟨k, hk, hfits'⟩ := h.fits p o ho
  rw [hk, hv.kind_unique hfits' hfits]
  exact nofun

theorem once_of_arranged : L.schema.listed.Perm (List.range L.schema.size) := by
  obtain ⟨hidden, hperm, hhidden⟩ := h.once
  have hnil : hidden = [] := by
    refine List.eq_nil_iff_forall_not_mem.2 fun d hd => ?_
    obtain ⟨p, hp, hk⟩ := hhidden d hd
    exact kind_of_parent h hv hp hk
  simpa [hnil] using hperm

theorem forest_of_arranged : Forest L.schema where
  filed d hd := exists_fileOf? h hv.toOrdered _ d hd rfl
  once d hd := by
    rw [(once_of_arranged h hv).count_eq d]
    exact List.count_eq_one_of_mem List.nodup_range (List.mem_range.2 hd)
  listed_lt d hd := List.mem_range.1 ((once_of_arranged h hv).mem_iff.1 hd)
  mem_nestedIn d m := ⟨h.linked.parent_of_nested m d, fun hp => h.child_nested d m hp (kind_of_parent h hv hp)⟩
  mem_topsOf d hd := ⟨fun ⟨f, hf⟩ => (h.top f d hf).1, mem_topsOf_of_root h hd⟩
  top_file d f hf := (h.top f d hf).2
  nested_file := h.child_file
  parents_end := Subrelation.wf (fun hp => h.rank_lt hv.toOrdered hp)
    (InvImage.wf (fun d => ((types[d]?).map rank).getD 0) Nat.lt_wfRel.wf)

end Forest

/-- The declaration of a message or an enum class is nested in the declaration of its owner. -/
theorem parentOf?_of_memo (hv : Orderly v rank) (h : Arranged v types [] L) {t : ρ} {id : DeclId} {o : Option ρ}
    (ht : v.stands t) (hk : c.isMessage t = true ∨ c.isEnum t = true)
    (hid : L.memo.lookup (c.fullName t) = some id) (ho : v.owner t o) :
    match o with
    | none => L.schema.parentOf? id = none
    | some owner => ∃ p, L.memo.lookup (c.fullName owner) = some p ∧ L.schema.parentOf? id = some p := by
  obtain ⟨t', ht', hname⟩ := (h.memo _ id).1 hid
  obtain ⟨k, hkind, hfits⟩ := h.fits id t' ht'
  obtain rfl := hv.name_inj hfits.stands ht hname
  cases hp : L.schema.parentOf? id with
  | some p =>
    obtain ⟨t'', owner, ht'', howner, how, -⟩ := h.child_owner id p hp
    obtain rfl : t' = t'' := by simpa [ht'] using ht''
    obtain rfl := hv.owner_unique ho how
    exact ⟨p, (h.memo _ p).2 ⟨owner, howner, rfl⟩, rfl⟩
  | none =>
    -- Only services are at the top of a file whatever class is around them.
    have hservice : kindOf? L.schema id ≠ some .service := by
      rw [hkind]
      rintro hs
      cases hs
      rcases hk with hk | hk
      · cases hv.kind_unique hfits (⟨ht, hk⟩ : v.Fits .message t')
      · cases hv.kind_unique hfits (⟨ht, hk⟩ : v.Fits .enum t')
    obtain rfl := hv.owner_unique ho (h.root_owner id t' ht' hp (by simp) hservice)
    rfl

end Arranged

end ProtoRecovery.Recovery
