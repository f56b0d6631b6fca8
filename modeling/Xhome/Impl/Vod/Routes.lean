import Xhome.Framework.Pattern

/-!
# The routes of the web server (`nginx-1.2.9/conf/http/80.conf`)

The rule that rewrites the URI of a block to its file below the document root,
where the cutter's directory is `/live`, and the location of the segments, whose
requests go to `wsgi_flv2ts.py` with their path for `REQUEST_URI`.
-/

namespace XH.Impl.Vod

open XH.Pattern

/-- `^/live/([0-9a-f]+)/([0-9]{7})([0-9]{3}).block$` -/
def blockPattern : List Item :=
  text ['/', 'l', 'i', 'v', 'e', '/'] ++ .plus hex :: .lit '/' :: .times digit 7 :: .times digit 3 :: .any ::
    text ['b', 'l', 'o', 'c', 'k']

/-- `"/live/$2/$1/$2$3.block"` -/
def blockFile (guid dir last : Name) : Name :=
  ['/', 'l', 'i', 'v', 'e', '/'] ++ (dir ++ '/' :: (guid ++ '/' :: (dir ++ (last ++ ['.', 'b', 'l', 'o', 'c', 'k']))))

/-- The `rewrite` in the location of the blocks. -/
def rewriteBlock (uri : Name) : Option Name := (groups blockPattern uri).map fun gs =>
  blockFile (gs.getD 0 []) (gs.getD 1 []) (gs.getD 2 [])

/-- The URI of a block. -/
def blockUri (guid id : Name) : Name :=
  ['/', 'l', 'i', 'v', 'e', '/'] ++ (guid ++ '/' :: (id ++ ['.', 'b', 'l', 'o', 'c', 'k']))

/-- `^/live/([a-f0-9]+)/([0-9]{9}[05]).ts$`; the second group is matched in two. -/
def tsPattern : List Item :=
  text ['/', 'l', 'i', 'v', 'e', '/'] ++ .plus hex :: .lit '/' :: .times digit 9 ::
    .times (fun c => c = '0' || c = '5') 1 :: .any :: text ['t', 's']

/-- The channel and the id of a segment. -/
def tsRoute (uri : Name) : Option (Name × Name) := (groups tsPattern uri).map fun gs =>
  (gs.getD 0 [], gs.getD 1 [] ++ gs.getD 2 [])

/-- The URI of a segment. -/
def tsUri (channelId seqId : Name) : Name :=
  ['/', 'l', 'i', 'v', 'e', '/'] ++ (channelId ++ '/' :: (seqId ++ ['.', 't', 's']))

end XH.Impl.Vod
