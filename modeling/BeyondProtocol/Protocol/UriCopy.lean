import BeyondProtocol.Protocol.UriText

/-!
# Copies of a URI

The copy constructor lists the members of the object one by one, and leaves out the text of the
scheme. The observers that write the scheme out show it.
-/

namespace BeyondProtocol

open Framework Rfc3986

namespace URI

/-! ## §1  Equal for every observer -/

/-- No observer tells the objects apart. -/
structure Same (u v : URI) : Prop where
  isValid : u.valid = v.valid
  getHost : u.host = v.host
  getPort : u.port = v.port
  getScheme : u.proto = v.proto
  getPath : u.path = v.path
  getFragment : u.frag = v.frag
  getBaseURI : u.base = v.base
  getBaseURI_limited : ∀ n, u.getBaseURI n = v.getBaseURI n
  getBaseURIWithUser : u.getBaseURIWithUser = v.getBaseURIWithUser
  hasUserInfo : u.hasUserInfo = v.hasUserInfo
  getUserInfo : u.userinfo = v.userinfo
  getPathSegment : ∀ n, u.getPathSegment n = v.getPathSegment n
  getPathLength : u.pathseg.length = v.pathseg.length
  getQuery : u.getQuery = v.getQuery
  getAttribute : ∀ key, u.getAttribute key = v.getAttribute key
  getAttributeInt : ∀ key, u.getAttributeInt key = v.getAttributeInt key
  hasAttribute : ∀ key, u.hasAttribute key = v.hasAttribute key
  toText : u.toText = v.toText
  toFilePath : u.toFilePath = v.toFilePath
  toJson : ∀ {J : Type} (lib : JsonLib J) (json : J), u.toJson lib json = v.toJson lib json

theorem Same.refl (u : URI) : Same u u := by
  constructor <;> intros <;> rfl

/-- A copy has all members but one. -/
theorem copy_eq (u : URI) : u.copy = { u with protostr := [] } := rfl

/-- The base with the user tells whether there is a scheme text. -/
theorem copy_getBaseURIWithUser (u : URI) :
    u.copy.getBaseURIWithUser = u.getBaseURIWithUser ↔ u.protostr = [] := by
  rw [copy_eq]
  simp only [URI.getBaseURIWithUser, List.append_assoc, List.append_cancel_right_eq]
  exact eq_comm

/-- A copy is the same for every observer, now and after the same further attributes, exactly if
the URI has no scheme text. -/
theorem copy_same_iff (u : URI) :
    (∀ xs, Same (u.copy.setAttributes xs) (u.setAttributes xs)) ↔ u.protostr = [] := by
  constructor
  · intro h
    exact u.copy_getBaseURIWithUser.mp (h []).getBaseURIWithUser
  · intro hnone xs
    have hcopy : u.copy = u := by rw [copy_eq, ← hnone]
    rw [hcopy]
    exact .refl _

/-- The scheme is missing from the copy's base with the user. -/
theorem copy_not_same : ∃ u, parse rfcEnv "ftl://utu.fi/a".toList = .ok u ∧
    ¬ Same (u.copy.setAttributes []) (u.setAttributes []) := by
  refine ⟨_, parse_sampleBase, fun h => ?_⟩
  have hscheme := (copy_getBaseURIWithUser _).mp h.getBaseURIWithUser
  exact absurd hscheme (by decide)

end URI

end BeyondProtocol
