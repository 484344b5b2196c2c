

import ScriptBuild.Main
import ScriptBuild.Proofs.BackendNames
import ScriptBuild.Proofs.BufferLayout
import ScriptBuild.Proofs.BuildCounts
import ScriptBuild.Proofs.BuiltInNames
import ScriptBuild.Proofs.CommentBoundaries
import ScriptBuild.Proofs.CorpusOrder
import ScriptBuild.Proofs.DocComments
import ScriptBuild.Proofs.EventStreams
import ScriptBuild.Proofs.ExternTypes
import ScriptBuild.Proofs.Fingerprints
import ScriptBuild.Proofs.GraphComponents
import ScriptBuild.Proofs.OperatorGrouping
import ScriptBuild.Proofs.OutputContainment
import ScriptBuild.Proofs.RecentBodies
import ScriptBuild.Proofs.RefreshedContent
import ScriptBuild.Proofs.ResolvedNames
import ScriptBuild.Proofs.ShutdownPasses
import ScriptBuild.Proofs.StoredDependents
import ScriptBuild.Proofs.StubPlaces
import ScriptBuild.Server.Address
import ScriptBuild.Stub.Outline
