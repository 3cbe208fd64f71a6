import GrpcGw.Service.Query
import GrpcGw.Text.Form

/-!
# Query Strings of Encoded Parameters

A query string that a client has made by form-encoding keys and values binds like the keys and
values themselves: the string is split before its pieces are decoded, so no separator inside a
key or a value is taken for one.

- `queryDecode_formEncoded`: decoding a piece undoes its encoding.
- `bindQuery_formQuery`: binding an encoded query.
-/

namespace GrpcGw.Service

open GrpcGw.Text
open GrpcGw.Reflect
open GrpcGw.Transcode

/-! ## Pieces -/

theorem queryDecode_formEncoded {s : String} {cs : List Char} (h : FormEncoded (utf8 s) cs) :
    queryDecode (String.ofList cs) = s := by
  have hdecode := h.unescape_eq
  unfold queryDecode
  rw [String.toList_ofList]
  change (if '%' ∉ (String.ofList (cs.map plusToSpace)).toList then
      String.ofList (cs.map plusToSpace)
    else (fromUtf8 (unescape (utf8 (String.ofList (cs.map plusToSpace))))).getD
      (String.ofList (cs.map plusToSpace))) = s
  split
  · next hplain =>
    -- without a `%` there is nothing to decode
    rw [unescape_eq_self (percent_notMem_utf8 hplain)] at hdecode
    exact utf8_injective hdecode
  · rw [hdecode, fromUtf8_utf8, Option.getD_some]

/-- A separator of queries has no part in form encoding. -/
theorem isSeparator_ampersand : IsSeparator '&' :=
  ⟨by decide, by decide, by decide⟩

theorem isSeparator_equals : IsSeparator '=' :=
  ⟨by decide, by decide, by decide⟩

/-- A piece that spells a key and a value. -/
def FormPair (x : String × String) (piece : String) : Prop :=
  ∃ key value, FormEncoded (utf8 x.1) key ∧ FormEncoded (utf8 x.2) value ∧
    piece = String.ofList (key ++ '=' :: value)

theorem FormPair.queryPair_eq {x : String × String} {piece : String} (h : FormPair x piece) :
    queryPair piece = (split '.' x.1, x.2) := by
  obtain ⟨key, value, hkey, hvalue, rfl⟩ := h
  have hsplit : splitOnce '=' (String.ofList (key ++ '=' :: value)) =
      some (String.ofList key, String.ofList value) := by
    rw [splitOnce, String.toList_ofList,
      splitFirst_append (hkey.notMem isSeparator_equals (by decide)), Option.map_some]
  rw [queryPair, hsplit, Option.getD_some]
  simp only [queryDecode_formEncoded hkey, queryDecode_formEncoded hvalue]

theorem FormPair.notMem {x : String × String} {piece : String} (h : FormPair x piece) :
    '&' ∉ piece.toList := by
  obtain ⟨key, value, hkey, hvalue, rfl⟩ := h
  have hk := hkey.notMem isSeparator_ampersand (by decide)
  have hv := hvalue.notMem isSeparator_ampersand (by decide)
  simp [hk, hv]

theorem FormPair.ne_empty {x : String × String} {piece : String} (h : FormPair x piece) :
    piece ≠ "" := by
  obtain ⟨key, value, -, -, rfl⟩ := h
  intro heq
  have hlist := congrArg String.toList heq
  simp at hlist

/-! ## Queries -/

/-- A query string that spells a list of keys and values. -/
def FormQuery (pairs : List (String × String)) (query : String) : Prop :=
  ∃ pieces, List.Forall₂ FormPair pairs pieces ∧ query = join "&" pieces

theorem pairsOf_formPairs {pairs : List (String × String)} {pieces : List String}
    (h : List.Forall₂ FormPair pairs pieces) :
    pairsOf pieces = pairs.map fun x => (split '.' x.1, x.2) := by
  induction h with
  | nil => rfl
  | @cons x piece pairs pieces hpair _ ih =>
    rw [pairsOf, List.filter_cons_of_pos (by simpa using hpair.ne_empty), List.map_cons,
      hpair.queryPair_eq, ← pairsOf, ih, List.map_cons]

theorem notMem_formPairs {pairs : List (String × String)} {pieces : List String}
    (h : List.Forall₂ FormPair pairs pieces) : ∀ piece ∈ pieces, '&' ∉ piece.toList := by
  induction h with
  | nil => simp
  | cons hpair _ ih => exact List.forall_mem_cons.mpr ⟨hpair.notMem, ih⟩

/-- **Query parsing undoes form encoding.** -/
theorem bindQuery_formQuery (pool : DescriptorPool) (msg : DynamicMessage)
    {pairs : List (String × String)} {query : String} (h : FormQuery pairs query) :
    bindQuery pool msg query =
      bindAll pool .fillIfUnset BindError.isUnknownField
        (pairs.map fun x => (split '.' x.1, x.2)) msg := by
  obtain ⟨pieces, hpieces, rfl⟩ := h
  rw [bindQuery, queryPairs_join (notMem_formPairs hpieces), pairsOf_formPairs hpieces]

/-- A value that holds the separators themselves. -/
theorem bindQuery_formQuery_author :
    bindQuery bookPool (.new ⟨0⟩) "author.name=a%26b%3d%20%2b" =
      bindAll bookPool .fillIfUnset BindError.isUnknownField
        [(["author", "name"], "a&b= +")] (.new ⟨0⟩) := by
  have hkey : percentEncode .lower "author.name" = "author.name" := by decide
  have hvalue : percentEncode .lower "a&b= +" = "a%26b%3d%20%2b" := by decide
  have hpair : FormPair ("author.name", "a&b= +") "author.name=a%26b%3d%20%2b" := by
    refine ⟨_, _, formEncoded_percentEncode .lower "author.name",
      formEncoded_percentEncode .lower "a&b= +", ?_⟩
    rw [hkey, hvalue]
    decide
  have hsplit : split '.' "author.name" = ["author", "name"] := by decide
  have hquery := bindQuery_formQuery bookPool (.new ⟨0⟩) ⟨_, .cons hpair .nil, rfl⟩
  rw [List.map_cons, List.map_nil, hsplit] at hquery
  exact hquery

end GrpcGw.Service
