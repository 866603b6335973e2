import BuildTree.Build.LineScript
import BuildTree.Main
import BuildTree.Path.Json
import BuildTree.Proofs.Archive.DecodeOnce
import BuildTree.Proofs.Archive.Extensions
import BuildTree.Proofs.Archive.FailedLoads
import BuildTree.Proofs.Archive.History
import BuildTree.Proofs.Archive.SharedPaths
import BuildTree.Proofs.Build.AnyName
import BuildTree.Proofs.Build.Faultless
import BuildTree.Proofs.Build.Origins
import BuildTree.Proofs.Build.ParsedFiles
import BuildTree.Proofs.Cache.Slab
import BuildTree.Proofs.Cli.AuditCommand
import BuildTree.Proofs.Dependency.BlankSources
import BuildTree.Proofs.Digest.KeyStream
import BuildTree.Proofs.Finding.JsonLine
import BuildTree.Proofs.Path.Mounting
import BuildTree.Proofs.Plan.Accepted
import BuildTree.Proofs.Plan.SourcePaths
import BuildTree.Proofs.Tar.Repacking
import BuildTree.Proofs.Tree.Directories
import BuildTree.Proofs.Tree.TrailingSlash
import BuildTree.Proofs.Tree.Visits
