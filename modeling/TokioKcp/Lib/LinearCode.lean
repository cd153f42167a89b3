import TokioKcp.Lib.ErasureCode

namespace ErasureCode
set_option autoImplicit true

variable {β ε : Type} {c : Codec β ε} {d p k l m n : Nat} {add : β → β → β} {zero : β}
variable {u v word shards : List (Shard β)} {xs : List (Option (Shard β))}

/-- A word of the code: `d + p` shards of one length that encoding leaves as they are. -/
structure Codec.IsWord (c : Codec β ε) (d p n : Nat) (word : List (Shard β)) : Prop where
  length : word.length = d + p
  uniform : Uniform n word
  encoded : c.encode word = .ok word

def sumWords (add : β → β → β) (u v : List (Shard β)) : List (Shard β) :=
  List.zipWith (List.zipWith add) u v

def padShard (zero : β) (k m : Nat) (s : Shard β) : Shard β :=
  List.replicate k zero ++ (s ++ List.replicate m zero)

/-- A systematic code whose words are closed under sums and put together from words of shorter
shards, and in which any `d` shards can be chosen and determine the rest. -/
structure Codec.Linear (c : Codec β ε) (d p : Nat) (add : β → β → β) (zero : β) : Prop where
  lawful : c.Lawful d p
  data_only : ∀ n u v, u.length = d + p → v.length = d + p → Uniform n u → Uniform n v →
    u.take d = v.take d → c.encode u = c.encode v
  zero : ∀ n, 0 < n → c.IsWord d p n (List.replicate (d + p) (List.replicate n zero))
  sum : ∀ n u v, c.IsWord d p n u → c.IsWord d p n v → c.IsWord d p n (sumWords add u v)
  append : ∀ m n u v, c.IsWord d p m u → c.IsWord d p n v →
    c.IsWord d p (m + n) (List.zipWith (· ++ ·) u v)
  fills : ∀ n xs, 0 < n → xs.length = d + p →
    (∀ (i : Nat) (s : Shard β), xs[i]? = some (some s) → s.length = n) → present xs = d →
    ∃ word, c.IsWord d p n word ∧ PartOf xs word

theorem Codec.Linear.isWord_of_encode (h : c.Linear d p add zero)
    (hl : shards.length = d + p) (hu : Uniform n shards) (he : c.encode shards = .ok word) :
    c.IsWord d p n word := by
  obtain ⟨word', he', hl', hu', ht⟩ := h.lawful.systematic n shards hl hu
  rw [he] at he'
  cases he'
  exact ⟨hl', hu', (h.data_only n word shards hl' hl hu' hu ht).trans he⟩

theorem Codec.Linear.encode_eq (h : c.Linear d p add zero) (hw : c.IsWord d p n word)
    (hl : shards.length = d + p) (hu : Uniform n shards) (ht : shards.take d = word.take d) :
    c.encode shards = .ok word :=
  (h.data_only n shards word hl hw.length hu hw.uniform ht).trans hw.encoded

/-- Two words that share `d` shards share their data shards. -/
theorem Codec.Linear.data_unique (h : c.Linear d p add zero) (hu : c.IsWord d p n u)
    (hv : c.IsWord d p n v) (hxu : PartOf xs u) (hxv : PartOf xs v) (hp : d ≤ present xs) :
    ∀ i, i < d → u[i]? = v[i]? := by
  obtain ⟨ys, hy, _, hyu⟩ := h.lawful.restores n u u xs hu.length hu.uniform hu.encoded hxu hp
  obtain ⟨zs, hz, _, hzv⟩ := h.lawful.restores n v v xs hv.length hv.uniform hv.encoded hxv hp
  rw [hy] at hz
  cases hz
  intro i hi
  have he := (hyu i hi).symm.trans (hzv i hi)
  exact Option.map_injective (fun _ _ hs => Option.some.inj hs) he

theorem zipWith_append_replicate (hl : u.length = n) :
    List.zipWith (· ++ ·) (List.replicate n s) u = u.map (s ++ ·) := by
  induction u generalizing n with
  | nil => rw [List.zipWith_nil_right, List.map_nil]
  | cons x u ih =>
    cases n with
    | zero => cases hl
    | succ n =>
      rw [List.replicate_succ, List.zipWith_cons_cons, List.map_cons, ih (Nat.succ.inj hl)]

theorem zipWith_append_replicate_right (hl : u.length = n) :
    List.zipWith (· ++ ·) u (List.replicate n s) = u.map (· ++ s) := by
  induction u generalizing n with
  | nil => rw [List.zipWith_nil_left, List.map_nil]
  | cons x u ih =>
    cases n with
    | zero => cases hl
    | succ n =>
      rw [List.replicate_succ, List.zipWith_cons_cons, List.map_cons, ih (Nat.succ.inj hl)]

theorem Codec.Linear.pad (h : c.Linear d p add zero) (hw : c.IsWord d p n word)
    (hk : 0 < k) (hm : 0 < m) :
    c.IsWord d p (k + (n + m)) (word.map (padShard zero k m)) := by
  have hback := h.append n m _ _ hw (h.zero m hm)
  rw [zipWith_append_replicate_right hw.length] at hback
  have hfront := h.append k (n + m) _ _ (h.zero k hk) hback
  rw [zipWith_append_replicate (by rw [List.length_map, hw.length]), List.map_map] at hfront
  exact hfront

/-- A word stays one when the same positions of all its shards are disturbed by a word. -/
theorem Codec.Linear.disturb (h : c.Linear d p add zero) (hw : c.IsWord d p (k + (n + m)) word)
    (hv : c.IsWord d p n v) (hk : 0 < k) (hm : 0 < m) :
    c.IsWord d p (k + (n + m)) (sumWords add word (v.map (padShard zero k m))) :=
  h.sum _ _ _ hw (h.pad hv hk hm)

theorem getElem?_sumWords {i : Nat} (hu : u[i]? = some s) (hv : v[i]? = some e) :
    (sumWords add u v)[i]? = some (List.zipWith add s e) := by
  rw [sumWords, List.getElem?_zipWith, hu, hv]

end ErasureCode
