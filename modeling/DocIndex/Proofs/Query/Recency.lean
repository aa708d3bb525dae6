/-
What an index remembers of the queries that it read.

Trees stand in the cache in the order of their last use, so what is kept after any run of queries
can be told from their texts alone: write down the texts that could be read, the last one first,
strike out each that was written before, and keep as many as fit.  One use of the cache puts its
text in front of that list, and it does not matter that the texts behind the limit are gone:
whatever is pushed out stands behind all that stays.  An index that is asked for a query answers
as one would that was never asked before: every tree is kept under the key that it was made for,
and no operation puts a tree under another key, so a tree that is found is the one that its key
makes.  A text that makes no tree is not kept at all, and its error is made anew each time.
-/
import DocIndex.OpenIndex
import DocIndex.Proofs.Except
import DocIndex.Proofs.Storage.Durable

namespace DocIndex.Query.QueryCache

/-- A cache whose trees are those that their keys make. -/
def Faithful (make : CacheKey → Except Error Tree) (cache : QueryCache) : Prop :=
  ∀ entry ∈ cache.entries, make entry.1 = .ok entry.2

variable {make : CacheKey → Except Error Tree} {cache : QueryCache}

theorem faithful_empty (make : CacheKey → Except Error Tree) (limit : Nat) :
    Faithful make (.empty limit) := by
  intro entry hentry
  simp [empty] at hentry

theorem Faithful.find? (h : Faithful make cache) {key : CacheKey} {tree : Tree}
    (hfind : cache.find? key = some tree) : make key = .ok tree := by
  obtain ⟨entry, hentry, rfl⟩ := Option.map_eq_some_iff.mp hfind
  have hkey : entry.1 = key := by simpa using List.find?_some hentry
  rw [← hkey]
  exact h entry (List.mem_of_find?_eq_some hentry)

/-- A tree under its own key may stand in front of the entries of all other keys. -/
theorem Faithful.cons (h : Faithful make cache) {key : CacheKey} {tree : Tree}
    (hmake : make key = .ok tree) :
    ∀ entry ∈ (key, tree) :: cache.others key, make entry.1 = .ok entry.2 := by
  intro entry hentry
  rcases List.mem_cons.mp hentry with rfl | hother
  · exact hmake
  · exact h entry (List.mem_filter.mp hother).1

theorem Faithful.get (h : Faithful make cache) (key : CacheKey) :
    Faithful make (cache.get key).2 := by
  unfold QueryCache.get
  split
  · rename_i tree hfind
    exact h.cons (h.find? hfind)
  · exact h

theorem Faithful.put (h : Faithful make cache) {key : CacheKey} {tree : Tree}
    (hmake : make key = .ok tree) : Faithful make (cache.put key tree) := by
  intro entry hentry
  exact h.cons hmake entry (List.mem_of_mem_take hentry)

/-- **What is asked for is what its key makes**, and the cache stays faithful. -/
theorem Faithful.getOrMake (h : Faithful make cache) (key : CacheKey) :
    (cache.getOrMake key (make key)).1 = make key ∧
      Faithful make (cache.getOrMake key (make key)).2 := by
  have hget := h.get key
  unfold QueryCache.getOrMake
  split
  · rename_i tree next hfound
    rw [hfound] at hget
    refine ⟨?_, hget⟩
    unfold QueryCache.get at hfound
    split at hfound
    · rename_i other hfind
      rw [h.find? hfind, Option.some.inj (Prod.mk.inj hfound).1]
    · simp at hfound
  · rename_i next hmissing
    rw [hmissing] at hget
    cases hmake : make key with
    | ok tree => exact ⟨rfl, hget.put hmake⟩
    | error e => exact ⟨rfl, hget⟩

end DocIndex.Query.QueryCache

namespace DocIndex

open Query (CacheKey QueryCache Tree)
open Storage (Step)

section Uses

variable {α : Type} [DecidableEq α]

/-- What was used, each thing once, by its last use, the latest first. -/
def lastUses (used : List α) : List α := used.reverse.eraseDups

theorem length_filter_bne_lt (a : α) (rest : List α) :
    (rest.filter fun b => !b == a).length < (a :: rest).length :=
  Nat.lt_succ_of_le (List.length_filter_le _ _)

/-- Where only some of a list is looked at, each of that is still met once, in the same order. -/
theorem eraseDups_filter (p : α → Bool) (xs : List α) :
    (xs.filter p).eraseDups = xs.eraseDups.filter p := by
  cases xs with
  | nil => rfl
  | cons a rest =>
      have hrest := eraseDups_filter p (rest.filter fun b => !b == a)
      have hswap : (rest.filter fun b => !b == a).filter p
          = (rest.filter p).filter fun b => !b == a := by
        rw [List.filter_filter, List.filter_filter]
        congr 1
        funext b
        exact Bool.and_comm ..
      rw [hswap] at hrest
      rw [List.eraseDups_cons]
      cases hp : p a with
      | true =>
          rw [List.filter_cons_of_pos hp, List.filter_cons_of_pos hp, List.eraseDups_cons, hrest]
      | false =>
          have hothers : ((rest.filter p).filter fun b => !b == a) = rest.filter p := by
            refine List.filter_eq_self.mpr fun b hb => ?_
            have hpb : p b = true := (List.mem_filter.mp hb).2
            simp only [Bool.not_eq_true', beq_eq_false_iff_ne]
            rintro rfl
            rw [hp] at hpb
            exact absurd hpb Bool.false_ne_true
          rw [List.filter_cons_of_neg (by simp [hp]), List.filter_cons_of_neg (by simp [hp]),
            ← hrest, hothers]
termination_by xs.length
decreasing_by exact length_filter_bne_lt a rest

theorem nodup_eraseDups (xs : List α) : xs.eraseDups.Nodup := by
  cases xs with
  | nil => exact List.nodup_nil
  | cons a rest =>
      rw [List.eraseDups_cons]
      exact List.nodup_cons.mpr ⟨by simp, nodup_eraseDups _⟩
termination_by xs.length
decreasing_by exact length_filter_bne_lt a rest

/-- Different things stay different under an injective function, and equal ones equal. -/
theorem eraseDups_map {β : Type} [DecidableEq β] {f : α → β} (hf : ∀ a b, f a = f b → a = b)
    (xs : List α) : (xs.map f).eraseDups = xs.eraseDups.map f := by
  cases xs with
  | nil => rfl
  | cons a rest =>
      have hrest := eraseDups_map hf (rest.filter fun b => !b == a)
      have hother : ((fun b => !b == f a) ∘ f) = fun b => !b == a := by
        funext b
        rw [Function.comp_apply, Bool.eq_iff_iff]
        simp only [Bool.not_eq_true', beq_eq_false_iff_ne]
        exact not_congr ⟨hf b a, congrArg f⟩
      rw [List.map_cons, List.eraseDups_cons, List.eraseDups_cons, List.map_cons, List.filter_map,
        hother, hrest]
termination_by xs.length
decreasing_by exact length_filter_bne_lt a rest

theorem lastUses_map {β : Type} [DecidableEq β] {f : α → β} (hf : ∀ a b, f a = f b → a = b)
    (used : List α) : lastUses (used.map f) = (lastUses used).map f := by
  unfold lastUses
  rw [← List.map_reverse, eraseDups_map hf]

theorem nodup_lastUses (used : List α) : (lastUses used).Nodup := nodup_eraseDups _

/-- One more use puts the thing in front, and takes it away from where it stood. -/
theorem lastUses_snoc (used : List α) (a : α) :
    lastUses (used ++ [a]) = a :: (lastUses used).filter (· ≠ a) := by
  unfold lastUses
  rw [List.reverse_append, List.reverse_singleton, List.singleton_append, List.eraseDups_cons,
    eraseDups_filter]
  congr 2
  funext b
  rw [decide_not, Bool.beq_eq_decide_eq]

/-- What stands behind a limit cannot come back within it by another use of something. -/
theorem take_filter_ne {xs : List α} (h : xs.Nodup) (a : α) (n : Nat) :
    ((xs.take (n + 1)).filter (· ≠ a)).take n = (xs.filter (· ≠ a)).take n := by
  induction xs generalizing n with
  | nil => rfl
  | cons b rest ih =>
      obtain ⟨hb, hrest⟩ := List.nodup_cons.mp h
      rw [List.take_succ_cons]
      by_cases hba : b = a
      · subst hba
        have hall : ∀ c ∈ rest, decide (c ≠ b) = true := by
          intro c hc
          exact decide_eq_true fun hcb => hb (hcb ▸ hc)
        rw [List.filter_cons_of_neg (by simp), List.filter_cons_of_neg (by simp),
          List.filter_eq_self.mpr hall,
          List.filter_eq_self.mpr fun c hc => hall c (List.mem_of_mem_take hc), List.take_take,
          Nat.min_self]
      · rw [List.filter_cons_of_pos (by simpa using hba),
          List.filter_cons_of_pos (by simpa using hba)]
        cases n with
        | zero => rfl
        | succ n => rw [List.take_succ_cons, List.take_succ_cons, ih hrest n]

end Uses

namespace Query.QueryCache

/-- Whether a key makes a tree. -/
def makes (make : CacheKey → Except Error Tree) (key : CacheKey) : Bool := (make key).toBool

/--
What a cache holds after it was asked for some keys, one after the other: trees of the keys that
make one, by their last use and as many as fit.
-/
structure AskedFor (make : CacheKey → Except Error Tree) (limit : Nat) (asked : List CacheKey)
    (cache : QueryCache) : Prop where
  bounded : cache.limit = limit
  keys : cache.entries.map Prod.fst
    = (lastUses (asked.filter (makes make))).take (max limit 1)
  faithful : Faithful make cache
  counted : cache.hits + cache.misses = asked.length

variable {make : CacheKey → Except Error Tree} {limit : Nat} {asked : List CacheKey}
  {cache : QueryCache}

theorem askedFor_nil (make : CacheKey → Except Error Tree) (limit : Nat) :
    AskedFor make limit [] (.empty limit) where
  bounded := rfl
  keys := by simp [empty, lastUses]
  faithful := faithful_empty make limit
  counted := rfl

theorem map_others (cache : QueryCache) (key : CacheKey) :
    (cache.others key).map Prod.fst = (cache.entries.map Prod.fst).filter (· ≠ key) := by
  unfold others
  rw [List.filter_map]
  rfl

theorem mem_of_find?_eq_some {key : CacheKey} {tree : Tree} (h : cache.find? key = some tree) :
    key ∈ cache.entries.map Prod.fst := by
  obtain ⟨entry, hentry, -⟩ := Option.map_eq_some_iff.mp h
  have hkey : entry.1 = key := by simpa using List.find?_some hentry
  exact List.mem_map.mpr ⟨entry, List.mem_of_find?_eq_some hentry, hkey⟩

namespace AskedFor

/-- A key that makes a tree comes first, and the last one goes if there are too many. -/
theorem used (h : AskedFor make limit asked cache) {key : CacheKey}
    (hmakes : makes make key = true) :
    (key :: (cache.entries.map Prod.fst).filter (· ≠ key)).take (max limit 1)
      = (lastUses ((asked ++ [key]).filter (makes make))).take (max limit 1) := by
  obtain ⟨n, hn⟩ : ∃ n, max limit 1 = n + 1 := ⟨max limit 1 - 1, by omega⟩
  have hkeys := h.keys
  rw [hn] at hkeys ⊢
  rw [List.filter_append, List.filter_cons_of_pos hmakes, List.filter_nil, lastUses_snoc,
    List.take_succ_cons, List.take_succ_cons, hkeys, take_filter_ne (nodup_lastUses _)]

/-- A key that is found only changes its place, so that all of them still fit. -/
theorem found_fits (h : AskedFor make limit asked cache) {key : CacheKey} {tree : Tree}
    (hfind : cache.find? key = some tree) :
    (key :: (cache.entries.map Prod.fst).filter (· ≠ key)).length ≤ max limit 1 := by
  have hmem := mem_of_find?_eq_some hfind
  have hfewer : ((cache.entries.map Prod.fst).filter (· ≠ key)).length
      < (cache.entries.map Prod.fst).length :=
    List.length_filter_lt_length_iff_exists.mpr ⟨key, hmem, by simp⟩
  have hall : (cache.entries.map Prod.fst).length ≤ max limit 1 := by
    rw [h.keys]
    exact List.length_take_le ..
  rw [List.length_cons]
  omega

/-- A key that makes nothing leaves the trees as they are. -/
theorem unused {key : CacheKey} (hmakes : makes make key = false) :
    (asked ++ [key]).filter (makes make) = asked.filter (makes make) := by
  rw [List.filter_append, List.filter_cons_of_neg (by simp [hmakes]), List.filter_nil,
    List.append_nil]

/-- A cache that is asked for one more key. -/
theorem getOrMake (h : AskedFor make limit asked cache) (key : CacheKey) :
    AskedFor make limit (asked ++ [key]) (cache.getOrMake key (make key)).2 := by
  have hfaithful := (h.faithful.getOrMake key).2
  have hcounted := h.counted
  cases hfind : cache.find? key with
  | some tree =>
      have hmakes : makes make key = true := by simp [makes, h.faithful.find? hfind, Except.toBool]
      have hgot : (cache.getOrMake key (make key)).2
          = { cache with entries := (key, tree) :: cache.others key, hits := cache.hits + 1 } := by
        simp [QueryCache.getOrMake, QueryCache.get, hfind]
      rw [hgot] at hfaithful ⊢
      refine ⟨h.bounded, ?_, hfaithful, ?_⟩
      · rw [List.map_cons, map_others, ← h.used hmakes]
        exact (List.take_of_length_le (h.found_fits hfind)).symm
      · rw [List.length_append, List.length_singleton]
        simp only
        omega
  | none =>
      cases hmake : make key with
      | ok tree =>
          have hmakes : makes make key = true := by simp [makes, hmake, Except.toBool]
          have hgot : (cache.getOrMake key (make key)).2
              = { cache with
                  entries := ((key, tree) :: cache.others key).take cache.capacity
                  misses := cache.misses + 1 } := by
            simp [QueryCache.getOrMake, QueryCache.get, hfind, hmake, put, others, capacity]
          rw [hmake] at hgot
          rw [hmake, hgot] at hfaithful
          rw [hgot]
          refine ⟨h.bounded, ?_, hfaithful, ?_⟩
          · rw [List.map_take, List.map_cons, map_others, capacity, h.bounded, h.used hmakes]
          · rw [List.length_append, List.length_singleton]
            simp only
            omega
      | error e =>
          have hmakes : makes make key = false := by simp [makes, hmake, Except.toBool]
          have hgot : (cache.getOrMake key (make key)).2
              = { cache with misses := cache.misses + 1 } := by
            simp [QueryCache.getOrMake, QueryCache.get, hfind, hmake]
          rw [hmake] at hgot
          rw [hmake, hgot] at hfaithful
          rw [hgot]
          refine ⟨h.bounded, ?_, hfaithful, ?_⟩
          · rw [unused hmakes]
            exact h.keys
          · rw [List.length_append, List.length_singleton]
            simp only
            omega

end AskedFor

end Query.QueryCache

namespace OpenIndex

variable {σ τ : Type}

/-! ### The texts that an index was asked for -/

/-- A text as it is looked up and read: without the white space around it. -/
def trimmed (text : String) : String := String.ofList (Text.trim text.toList)

/-- What an index is really asked for: the texts that are not blank. -/
def askedTexts (texts : List String) : List String :=
  (texts.map trimmed).filter fun text => !text.isEmpty

/-- The texts of queries that could be read, each once, the most recently used first. -/
def recentTexts (config : Config) (texts : List String) : List String :=
  lastUses ((askedTexts texts).filter fun text => (readQuery config text).toBool)

/-- What a text is kept under. -/
def keyOf (config : Config) (text : String) : CacheKey := ⟨text, config.defaultConnective⟩

/-- What is read under a key. -/
def readUnder (config : Config) (key : CacheKey) : Except Error Tree := readQuery config key.text

/-- What a text gives if nothing is remembered. -/
def readAfresh (config : Config) (text : String) : Except Error Tree :=
  if (trimmed text).isEmpty then .error .blankQuery else readQuery config (trimmed text)

theorem askedTexts_cons (text : String) (texts : List String) :
    askedTexts (text :: texts) = askedTexts [text] ++ askedTexts texts := by
  simp only [askedTexts, List.map_cons, List.map_nil, ← List.filter_append, List.singleton_append]

theorem recent_keys (config : Config) (texts : List String) :
    lastUses (((askedTexts texts).map (keyOf config)).filter
        (QueryCache.makes (readUnder config)))
      = (recentTexts config texts).map (keyOf config) := by
  have hinjective : ∀ a b, keyOf config a = keyOf config b → a = b :=
    fun a b hab => congrArg CacheKey.text hab
  rw [List.filter_map, lastUses_map hinjective]
  rfl

/-- Asks an index for queries, one after the other. -/
def compileAll (index : OpenIndex σ) : List String → List (Except Error Tree) × OpenIndex σ
  | [] => ([], index)
  | text :: rest =>
    let first := (compile text).runFrom index
    let others := first.2.compileAll rest
    (first.1 :: others.1, others.2)

/-- An index of some settings that was asked for some texts. -/
structure AskedFor (config : Config) (asked : List String) (index : OpenIndex σ) : Prop where
  config_eq : index.config = config
  cache : QueryCache.AskedFor (readUnder config) config.queryCacheSize
    (asked.map (keyOf config)) index.cache

theorem askedFor_openWith [Storage σ] {config : Config} {analyzers : Analyzers}
    {fields : FieldConfiguration} {directory : σ} {identifiers : IdentifierSupply}
    {index : OpenIndex σ}
    (hopen : openWith config analyzers fields directory identifiers = .ok index) :
    AskedFor config [] index := by
  obtain ⟨store, -, hindex⟩ := bind_eq_ok.mp hopen
  obtain rfl := Except.ok.inj hindex
  exact ⟨rfl, QueryCache.askedFor_nil _ _⟩

/-- A text that is not blank is looked up in the cache, and nothing else changes. -/
theorem runFrom_compile (index : OpenIndex σ) (text : String) :
    (compile text).runFrom index
      = if (trimmed text).isEmpty then (.error .blankQuery, index)
        else
          let made := index.cache.getOrMake (keyOf index.config (trimmed text))
            (readUnder index.config (keyOf index.config (trimmed text)))
          (made.1, { index with cache := made.2 }) := by
  have hget : (get : Step (OpenIndex σ) (OpenIndex σ)).runFrom index = (.ok index, index) := rfl
  rw [compile, Storage.runFrom_bind hget]
  unfold trimmed
  generalize String.ofList (Text.trim text.toList) = kept
  unfold keyOf readUnder
  by_cases hblank : kept.isEmpty = true
  · simp only [hblank, if_true]
    rfl
  · simp only [hblank, Bool.false_eq_true, if_false]
    generalize index.cache.getOrMake _ _ = made
    obtain ⟨result, cache⟩ := made
    cases result with
    | ok tree => rfl
    | error e => rfl

/-- **Asking for one more text**: the answer is that of an index that remembers nothing. -/
theorem AskedFor.compile {config : Config} {asked : List String} {index : OpenIndex σ}
    (h : AskedFor config asked index) (text : String) :
    ((compile text).runFrom index).1 = readAfresh config text ∧
      AskedFor config (asked ++ askedTexts [text]) ((compile text).runFrom index).2 ∧
      ((compile text).runFrom index).2
        = { index with cache := ((compile text).runFrom index).2.cache } := by
  obtain ⟨rfl, hcache⟩ := h
  rw [runFrom_compile]
  unfold readAfresh
  by_cases hblank : (trimmed text).isEmpty = true
  · have hasked : askedTexts [text] = [] := by simp [askedTexts, hblank]
    rw [hasked, List.append_nil, if_pos hblank, if_pos hblank]
    exact ⟨rfl, ⟨rfl, hcache⟩, rfl⟩
  · have hasked : askedTexts [text] = [trimmed text] := by simp [askedTexts, hblank]
    rw [hasked, if_neg hblank, if_neg hblank]
    refine ⟨(hcache.faithful.getOrMake _).1, ⟨rfl, ?_⟩, rfl⟩
    rw [List.map_append, List.map_cons, List.map_nil]
    exact hcache.getOrMake (keyOf index.config (trimmed text))

/-- **Asking for many texts**: each answer is that of an index that remembers nothing. -/
theorem AskedFor.compileAll {config : Config} {asked : List String} {index : OpenIndex σ}
    (h : AskedFor config asked index) (texts : List String) :
    (index.compileAll texts).1 = texts.map (readAfresh config) ∧
      AskedFor config (asked ++ askedTexts texts) (index.compileAll texts).2 ∧
      (index.compileAll texts).2 = { index with cache := (index.compileAll texts).2.cache } := by
  induction texts generalizing asked index with
  | nil =>
      refine ⟨rfl, ?_, rfl⟩
      rw [askedTexts, List.map_nil, List.filter_nil, List.append_nil]
      exact h
  | cons text rest ih =>
      obtain ⟨hanswer, hnext, hframe⟩ := h.compile text
      obtain ⟨hanswers, hlast, hrest⟩ := ih hnext
      rw [List.append_assoc, ← askedTexts_cons] at hlast
      have hwhole : { ((OpenIndex.compile text).runFrom index).2 with
          cache := (index.compileAll (text :: rest)).2.cache }
            = { index with cache := (index.compileAll (text :: rest)).2.cache } := by
        rw [hframe]
      exact ⟨congrArg₂ List.cons hanswer hanswers, hlast, hrest.trans hwhole⟩

/--
**The cache shows in nothing but its own figures.**  Whatever queries an index is asked for after
it was opened, it answers each as a new index of the same settings would.  It then holds the trees
of the texts that could be read, by their last use and as many as it was told to keep, though at
least one; no error is among them, and every text that is not blank was counted once.
-/
theorem compileAll_of_openWith [Storage σ] [Storage τ] {config : Config}
    {analyzers others : Analyzers} {fields strategies : FieldConfiguration} {directory : σ}
    {elsewhere : τ} {identifiers supply : IdentifierSupply} {index : OpenIndex σ}
    {fresh : OpenIndex τ}
    (hopen : openWith config analyzers fields directory identifiers = .ok index)
    (hfresh : openWith config others strategies elsewhere supply = .ok fresh)
    (texts : List String) :
    let (answers, last) := index.compileAll texts
    answers = texts.map (fun text => ((compile text).runFrom fresh).1) ∧
      last.cache.hits + last.cache.misses = (askedTexts texts).length ∧
      last.cache.entries.map Prod.fst
        = ((recentTexts config texts).take (max config.queryCacheSize 1)).map (keyOf config) ∧
      (∀ entry ∈ last.cache.entries, readQuery config entry.1.text = .ok entry.2) ∧
      last = { index with cache := last.cache } := by
  obtain ⟨hanswers, hasked, hframe⟩ := (askedFor_openWith hopen).compileAll texts
  have hcache := hasked.cache
  refine ⟨?_, ?_, ?_, hcache.faithful, hframe⟩
  · rw [hanswers]
    exact List.map_congr_left fun text _ => ((askedFor_openWith hfresh).compile text).1.symm
  · rw [hcache.counted, List.length_map, List.nil_append]
  · rw [hcache.keys, List.nil_append, recent_keys, List.map_take]

/-- Settings under which no tree is to be kept. -/
def forgetful : Config := { Config.default with queryCacheSize := 0 }

/-- One tree is kept all the same, and a text that cannot be read does not push it out. -/
theorem compileAll_forgetful :
    let texts := ["a", " a ", "", "b", "b =", "a b", "b "]
    askedTexts texts = ["a", "a", "b", "b =", "a b", "b"] ∧
      recentTexts forgetful texts = ["b", "a b", "a"] ∧
      ∃ index : OpenIndex Storage.Directory,
        openWith forgetful Analyzers.builtIn (.ofConfig forgetful) Storage.Directory.inMemory 0
            = .ok index ∧
          let (answers, last) := index.compileAll texts
          answers = texts.map (fun text => ((compile text).runFrom index).1) ∧
            last.cache.hits + last.cache.misses = 6 ∧
            last.cache.entries.map Prod.fst = [keyOf forgetful "b"] ∧
            (∀ entry ∈ last.cache.entries, readQuery forgetful entry.1.text = .ok entry.2) ∧
            last = { index with cache := last.cache } := by
  intro texts
  have hasked : askedTexts texts = ["a", "a", "b", "b =", "a b", "b"] := by decide +kernel
  have hrecent : recentTexts forgetful texts = ["b", "a b", "a"] := by decide +kernel
  let index : OpenIndex Storage.Directory := ⟨forgetful, Analyzers.builtIn, .ofConfig forgetful,
    .ofStore forgetful.capacityCeiling
      ⟨.empty forgetful.sourceCompression, [], [], forgetful.identityField, none⟩ .inMemory 0,
    .empty forgetful.queryCacheSize⟩
  have hopen : openWith forgetful Analyzers.builtIn (.ofConfig forgetful)
      Storage.Directory.inMemory 0 = .ok index := rfl
  refine ⟨hasked, hrecent, index, hopen, ?_⟩
  have hrun := compileAll_of_openWith hopen hopen texts
  rw [hasked, hrecent] at hrun
  exact hrun

end OpenIndex

end DocIndex
